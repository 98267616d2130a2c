import JexlScript.Routine.Lookup
import JexlScript.Proofs.Reading.Unambiguous
import JexlScript.Proofs.Reading.Constructions
import JexlScript.Proofs.Reading.PropertyNames
import JexlScript.Proofs.LeadingBraces
import JexlScript.Proofs.OptionalScope
import JexlScript.Proofs.FilterScope
import JexlScript.Proofs.Scanning.Failures
import JexlScript.Proofs.UnknownOperators
import JexlScript.Proofs.Parsing.Precedence
import JexlScript.Proofs.Parsing.RelativeFlags
import JexlScript.Proofs.Parsing.FirstFault
import JexlScript.Proofs.Quantifiers
import JexlScript.Proofs.Scoping.Globals
import JexlScript.Proofs.Statements.Annotations
import JexlScript.Proofs.PrintedRoutines
import JexlScript.Proofs.Reading.StringLiterals
import JexlScript.Proofs.Scanning.Respacing
import JexlScript.Proofs.Scanning.Numerals
import JexlScript.Proofs.OptionalFlags
import JexlScript.Proofs.PatternNames
import JexlScript.Proofs.RelativeBinding
import JexlScript.Proofs.LooseEqualities
import JexlScript.Proofs.DroppedArguments
import JexlScript.Proofs.Traversals
