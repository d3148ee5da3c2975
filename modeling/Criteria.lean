import Criteria.Proofs.FlatReading
import Criteria.Proofs.Rendering
import Criteria.Proofs.Dropping
import Criteria.Proofs.Explaining
import Criteria.Proofs.Printing
import Criteria.Proofs.Deciding
import Criteria.Proofs.Rereading
import Criteria.Proofs.Compiling
import Criteria.Proofs.Loading
import Criteria.Proofs.Describing
import Criteria.Proofs.Traversing
import Criteria.Proofs.Filling
import Criteria.Proofs.Scanning
import Criteria.Proofs.Balancing
import Criteria.Proofs.Parenthesizing
import Criteria.Proofs.Exceeding
import Criteria.Proofs.Comparing
import Criteria.Proofs.Splitting
import Criteria.Proofs.Decoding
import Criteria.Proofs.Spacing
import Criteria.Proofs.Stabilizing
import Criteria.Proofs.Faulting
import Criteria.Proofs.Consulting
import Criteria.Proofs.Classifying
import Criteria.Proofs.Overriding
import Criteria.Proofs.Validating
import Criteria.Proofs.Warning
import Criteria.Proofs.Respelling
import Criteria.Proofs.Outlining
import Criteria.Proofs.Flattening
