import ParamLang.Inclusion.FileTree
import ParamLang.Inclusion.Scripted
import ParamLang.Proofs.Concatenation
import ParamLang.Proofs.Registry.Chain
import ParamLang.Proofs.Registry.Condition
import ParamLang.Proofs.Registry.Confinement
import ParamLang.Proofs.Registry.Failure
import ParamLang.Proofs.Registry.InPlace
import ParamLang.Proofs.Registry.Limit
import ParamLang.Proofs.Registry.Repeatable
import ParamLang.Proofs.Registry.Storing
import ParamLang.Proofs.Registry.Replay
import ParamLang.Proofs.Registry.Variable
import ParamLang.Proofs.Resolution.Settled
import ParamLang.Proofs.Wrapping
import ParamLang.Proofs.Grouping
import ParamLang.Proofs.Pulling
import ParamLang.Proofs.Segmentation
import ParamLang.Proofs.Transcription
import ParamLang.Proofs.Resolution.Transcribed
import ParamLang.Proofs.Resolution.Substitution
import ParamLang.Proofs.Registry.Comparison
import ParamLang.Proofs.Registry.Renewal
import ParamLang.Proofs.Registry.Extension
import ParamLang.Proofs.Registry.Observation
import ParamLang.Proofs.Registry.Eager
import ParamLang.Proofs.Registry.Commutation
import ParamLang.Proofs.Parameter.Checked
import ParamLang.Proofs.Parameter.Elements
import ParamLang.Proofs.ConditionOperands
import ParamLang.Proofs.Parameter.SizeReport
import ParamLang.Proofs.Registry.Listing
import ParamLang.Proofs.Surroundings
import ParamLang.Proofs.Blame
import ParamLang.Proofs.Trailing
import ParamLang.Proofs.Inclusion.File
import ParamLang.Proofs.Inclusion.Section
import ParamLang.Proofs.Inclusion.Renaming
import ParamLang.Proofs.Registry.Clearing
import ParamLang.Proofs.Resolution.Expanding
import ParamLang.Proofs.TokenReader
