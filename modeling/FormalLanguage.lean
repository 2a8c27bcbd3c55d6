import FormalLanguage.Automaton.Determinization
import FormalLanguage.Automaton.Separation
import FormalLanguage.Automaton.TransitionTable
import FormalLanguage.Automaton.Walk
import FormalLanguage.Description.Reader
import FormalLanguage.Description.Writer
import FormalLanguage.Grammar.Derivation
import FormalLanguage.Grammar.Reader
import FormalLanguage.Grammar.Reduction
import FormalLanguage.Grammar.Writer
import FormalLanguage.Readable
import FormalLanguage.Sampling.Automaton
import FormalLanguage.Sampling.Word
import FormalLanguage.Sorting
import FormalLanguage.Proofs.Automaton.Closure
import FormalLanguage.Proofs.SortedSet
import FormalLanguage.Proofs.Automaton.Acceptance
import FormalLanguage.Proofs.Automaton.Separation
import FormalLanguage.Proofs.Automaton.Subsets
import FormalLanguage.Proofs.Description.TopLevel
import FormalLanguage.Proofs.Description.Splitting
import FormalLanguage.Proofs.Description.Reader
import FormalLanguage.Proofs.Description.RoundTrip
import FormalLanguage.Proofs.Grammar.Analysis
import FormalLanguage.Proofs.Grammar.Reduction
import FormalLanguage.Proofs.Automaton.Determinization
import FormalLanguage.Proofs.Description.Accepted
import FormalLanguage.Proofs.Automaton.SubsetStates
import FormalLanguage.Proofs.Description.Layout
import FormalLanguage.Proofs.Description.Meaning
import FormalLanguage.Proofs.Description.Braces
import FormalLanguage.Proofs.Description.Determinized
import FormalLanguage.Proofs.Automaton.Deterministic
import FormalLanguage.Proofs.Grammar.ProperDerivation
import FormalLanguage.Proofs.Grammar.Reader
import FormalLanguage.Proofs.Grammar.RoundTrip
import FormalLanguage.Proofs.Grammar.RuleText
import FormalLanguage.Proofs.Grammar.RuleOrder
import FormalLanguage.Proofs.Automaton.Validation
import FormalLanguage.Proofs.Grammar.Validation
import FormalLanguage.Proofs.Description.Lines
import FormalLanguage.Proofs.Description.Rearrangement
import FormalLanguage.Proofs.Description.Faults
import FormalLanguage.Proofs.Automaton.MergedNames
import FormalLanguage.Proofs.Sampling
import FormalLanguage.Proofs.Width
import FormalLanguage.Proofs.Grid
import FormalLanguage.Proofs.Automaton.TransitionTable
import FormalLanguage.Proofs.Automaton.Successors
