import CircuitText.Main
import CircuitText.Proofs.Delays.ReadingBack
import CircuitText.Proofs.Faults.Discipline
import CircuitText.Proofs.Faults.Twins
import CircuitText.Proofs.Lexing.Backtracking
import CircuitText.Proofs.Lexing.Layout
import CircuitText.Proofs.Lexing.Moving
import CircuitText.Proofs.Lexing.Order
import CircuitText.Proofs.Lexing.Waiting
import CircuitText.Proofs.Nesting.Balance
import CircuitText.Proofs.Nesting.Limit
import CircuitText.Proofs.Parsing.Concatenation
import CircuitText.Proofs.Parsing.Pulls
import CircuitText.Proofs.Rendering.Program
import CircuitText.Proofs.Session.Capacity
import CircuitText.Proofs.Writing.Pairing
import CircuitText.Proofs.Writing.Source
