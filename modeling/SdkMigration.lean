import SdkMigration.Project.Run
import SdkMigration.Program.Location
import SdkMigration.Proofs.EditRequests
import SdkMigration.Proofs.KeptImports
import SdkMigration.Proofs.MigratedFile
import SdkMigration.Proofs.DeclaredNames
import SdkMigration.Proofs.TouchedText
import SdkMigration.Proofs.Shadowing
import SdkMigration.Proofs.GlobalName
import SdkMigration.Proofs.MergedImports
import SdkMigration.Proofs.RenderedImports
import SdkMigration.Proofs.UnmatchedFiles
import SdkMigration.Proofs.UnrelatedFiles
import SdkMigration.Proofs.ImplicitAlias
import SdkMigration.Proofs.Checked.Runs
import SdkMigration.Proofs.EnumReferences
import SdkMigration.Proofs.Project.FailedRuns
import SdkMigration.Proofs.Project.DryRuns
import SdkMigration.Proofs.Project.Reports
import SdkMigration.Proofs.Project.IndependentFiles
import SdkMigration.Proofs.PinnedDependencies
import SdkMigration.Proofs.Stages.Calls
import SdkMigration.Proofs.Stages.Guards
import SdkMigration.Proofs.Stages.LeftReferences
import SdkMigration.Proofs.DeclarationLines
import SdkMigration.Proofs.FirstRules
import SdkMigration.Proofs.RenderedChains
import SdkMigration.Proofs.BindingRuns
import SdkMigration.Proofs.CommentLines
import SdkMigration.Proofs.AccountedFiles
import SdkMigration.Proofs.RepeatedRuns
import SdkMigration.Proofs.MigratedScripts
import SdkMigration.Proofs.OpaqueLoads
import SdkMigration.Proofs.LoadedTables
import SdkMigration.Proofs.WrittenMappings
import SdkMigration.Proofs.WalkedStops
import SdkMigration.Proofs.Stages.Types
