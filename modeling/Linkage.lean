import Linkage.ClassFile.ClassBuilder
import Linkage.Proofs.Supertypes
import Linkage.Archive.PlainReader
import Linkage.Verifier
import Linkage.Proofs.Walk
import Linkage.Proofs.MemberSearch
import Linkage.Proofs.SearchSteps
import Linkage.Proofs.Linking
import Linkage.Proofs.Recording
import Linkage.Proofs.Fallible
import Linkage.Proofs.Artifacts
import Linkage.Proofs.Verification
import Linkage.Proofs.Agreement
import Linkage.Proofs.Collecting
import Linkage.Proofs.Ascents
import Linkage.Proofs.Descriptors
import Linkage.Proofs.OwnWalks
import Linkage.Proofs.RoundTrip
import Linkage.Proofs.VersionOrder
import Linkage.Proofs.Building
import Linkage.Proofs.Entries
import Linkage.Proofs.Interning
import Linkage.Proofs.IndexMaps
import Linkage.Proofs.Truncation
import Linkage.Proofs.Reencoding
import Linkage.Proofs.ConventionalOrder
import Linkage.Proofs.Constructors
import Linkage.Proofs.Isolation
import Linkage.Proofs.Storing
import Linkage.Proofs.Room
import Linkage.Proofs.BuiltClasses
import Linkage.Proofs.CanonicalCode
import Linkage.Proofs.RangeRendering
import Linkage.Proofs.ReferenceKeys
import Linkage.Proofs.Merging
import Linkage.Proofs.Requirements
import Linkage.Proofs.ClassPath
import Linkage.Proofs.Exclusion
import Linkage.Proofs.FurtherComponents
import Linkage.Proofs.BoundChecks
import Linkage.Proofs.DraftFilter
import Linkage.Proofs.SuperclassWalks
import Linkage.Proofs.NormalForms
import Linkage.Proofs.Layout
