import AmountField.AmountText.Record
import AmountField.Cursor.Script
import AmountField.Issued.Window.Record
import AmountField.Json.Read
import AmountField.Proofs.RoundTrip
import AmountField.Proofs.Decimal.Literal
import AmountField.Proofs.Acceptance
import AmountField.Proofs.Framing
import AmountField.Proofs.Narrowing
import AmountField.Proofs.Stream
import AmountField.Proofs.Kinds
import AmountField.Proofs.Sessions
import AmountField.Proofs.Shape
import AmountField.Proofs.Failure
import AmountField.Proofs.Records
import AmountField.Proofs.Drops
import AmountField.Proofs.Decimal.Significant
import AmountField.Proofs.Retraction
import AmountField.Proofs.Base58.Numeral
import AmountField.Proofs.Currency.Spelling
import AmountField.Proofs.Decoding
import AmountField.Proofs.SignBit
import AmountField.Proofs.Wire
import AmountField.Proofs.Window
import AmountField.Proofs.Rounds
import AmountField.Proofs.Base58.Carry
