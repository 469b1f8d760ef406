import Triage.Main
import Triage.Pattern.Program
import Triage.Proofs.Model.Broken
import Triage.Proofs.Model.Scales
import Triage.Proofs.Model.Cursor
import Triage.Proofs.Model.Damage
import Triage.Proofs.Model.Exactness
import Triage.Proofs.Run.Isolation
import Triage.Proofs.Run.Representation
import Triage.Proofs.Split.Leftovers
import Triage.Proofs.Text.Boundaries
import Triage.Proofs.Text.Normalizer
import Triage.Proofs.Vectorizer.Files
import Triage.Proofs.Vectorizer.Vocabulary
import Triage.Proofs.Vectorizer.Acceptance
import Triage.Proofs.Vectorizer.Occurrences
import Triage.Proofs.Text.Stable
import Triage.Proofs.Text.Windows
import Triage.Proofs.Vectorizer.Recognition
import Triage.Proofs.Text.Search
import Triage.Proofs.Vectorizer.Features
import Triage.Proofs.Vectorizer.Views
import Triage.Proofs.Dataset
import Triage.Proofs.Training.Divergence
