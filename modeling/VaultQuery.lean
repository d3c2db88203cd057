import VaultQuery.Main
import VaultQuery.Settings.Json
import VaultQuery.Proofs.Command.Availability
import VaultQuery.Proofs.Command.Creation
import VaultQuery.Proofs.Command.Emptiness
import VaultQuery.Proofs.Command.Membership
import VaultQuery.Proofs.Command.Addition
import VaultQuery.Proofs.Json.Numeral
import VaultQuery.Proofs.Json.Quoted
import VaultQuery.Proofs.Json.Tokens
import VaultQuery.Proofs.Json.Tree
import VaultQuery.Proofs.Snapshot.Documents
import VaultQuery.Proofs.Command.Likeness
import VaultQuery.Proofs.Command.Instances
import VaultQuery.Proofs.Command.Grouping
import VaultQuery.Proofs.Snapshot.Dates
import VaultQuery.Proofs.Snapshot.Nesting
import VaultQuery.Proofs.Snapshot.Queries
import VaultQuery.Proofs.CommandLine.Files
import VaultQuery.Proofs.Query.Outcome
import VaultQuery.Proofs.Query.Repetition
import VaultQuery.Proofs.Command.Extension
import VaultQuery.Proofs.Query.Comparison
import VaultQuery.Proofs.Query.Containment
import VaultQuery.Proofs.Query.Keys
import VaultQuery.Proofs.Query.Printed
import VaultQuery.Proofs.Query.OwnText
import VaultQuery.Proofs.Query.Typed
