import Reckoner.Main
import Reckoner.Proofs.Policies
import Reckoner.Proofs.Delivery
import Reckoner.Proofs.Derivation
import Reckoner.Proofs.Untainted
import Reckoner.Proofs.Verdict
import Reckoner.Proofs.Appended.Sequence
import Reckoner.Proofs.Lexing.Classes
import Reckoner.Proofs.Lexing.Decomposition
import Reckoner.Proofs.Lexing.Taking
import Reckoner.Proofs.Lexing.Tape
import Reckoner.Proofs.Numerals
import Reckoner.Proofs.Typing
import Reckoner.Proofs.Printing
import Reckoner.Proofs.Guard.Reading
import Reckoner.Proofs.Guard.Sessions
import Reckoner.Proofs.Documented
import Reckoner.Proofs.Fuel
import Reckoner.Proofs.Calls
import Reckoner.Proofs.InHand
import Reckoner.Proofs.Lookahead
import Reckoner.Proofs.Positions
import Reckoner.Proofs.Headers
import Reckoner.Proofs.Reprinting
import Reckoner.Proofs.Demand
import Reckoner.Proofs.Pushback
import Reckoner.Proofs.Layout
import Reckoner.Proofs.Invocations
import Reckoner.Proofs.Clearing
import Reckoner.Proofs.Missing
import Reckoner.Proofs.Course
import Reckoner.Proofs.Consumption
import Reckoner.Proofs.Rounds
import Reckoner.Proofs.Listing
import Reckoner.Proofs.Segments
import Reckoner.Proofs.Recovery
import Reckoner.Proofs.Stuck
import Reckoner.Proofs.Substitution
import Reckoner.Proofs.Rebinding
import Reckoner.Proofs.Commas
import Reckoner.Proofs.Printed
