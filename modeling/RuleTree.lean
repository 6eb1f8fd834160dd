import RuleTree.Convert.Collaborators
import RuleTree.Importer.Builder
import RuleTree.Schema.Encode
import RuleTree.Tree.Encode
import RuleTree.Proofs.DoubleNegation
import RuleTree.Proofs.Meaning
import RuleTree.Proofs.Rooting
import RuleTree.Proofs.Addresses
import RuleTree.Proofs.Numbering
import RuleTree.Proofs.Backing
import RuleTree.Proofs.Parts
import RuleTree.Proofs.Counting
import RuleTree.Proofs.Reporting
import RuleTree.Proofs.Sameness
import RuleTree.Proofs.Renaming
import RuleTree.Proofs.Isolation
import RuleTree.Proofs.Housing
import RuleTree.Proofs.Ending
import RuleTree.Proofs.Encoding
import RuleTree.Proofs.Sources
import RuleTree.Proofs.Operators
import RuleTree.Proofs.Operands
import RuleTree.Proofs.Standing
import RuleTree.Proofs.Arguments
import RuleTree.Proofs.Calls
import RuleTree.Proofs.Rewriting
import RuleTree.Proofs.Listing
import RuleTree.Proofs.Levels
import RuleTree.Proofs.Duality
import RuleTree.Proofs.CanonicalPaths
import RuleTree.Proofs.DateTexts
import RuleTree.Proofs.Patterns
import RuleTree.Proofs.OutermostPaths
import RuleTree.Proofs.Shapes
import RuleTree.Proofs.Recognition
