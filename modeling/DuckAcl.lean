import DuckAcl.Library.Text
import DuckAcl.Model.FieldPath
import DuckAcl.Model.FieldNode
import DuckAcl.Library.AccessRules
import DuckAcl.Model.FieldAccess
import DuckAcl.Soundness.FieldTrees
import DuckAcl.Soundness.FieldLists
import DuckAcl.Soundness.FieldRereading
import DuckAcl.Soundness.RoleUnion
import DuckAcl.Soundness.TreeIntersection
import DuckAcl.Model.GrantPolicy
import DuckAcl.Soundness.LevelNarrowing
import DuckAcl.Model.TablePolicy
import DuckAcl.Model.TableRead
import DuckAcl.Soundness.ReadPolicy
import DuckAcl.Library.Scope
import DuckAcl.Model.Syntax
import DuckAcl.Model.Binding
import DuckAcl.Model.Markers
import DuckAcl.Soundness.TemplateArguments
import DuckAcl.Model.FieldSql
import DuckAcl.Model.WritePolicy
import DuckAcl.Library.Runs
import DuckAcl.Model.Freshness
import DuckAcl.Model.PolicyCaches
import DuckAcl.Soundness.FreshnessChecks
import DuckAcl.Soundness.PolicyCaches
import DuckAcl.Soundness.OwnWrites
import DuckAcl.Model.FetchWindow
import DuckAcl.Soundness.FetchLaws
import DuckAcl.Library.Tables
import DuckAcl.Model.PolicyTables
import DuckAcl.Model.PolicyRevocation
import DuckAcl.Soundness.Revocation
import DuckAcl.Model.NamePath
import DuckAcl.Model.RelationRemoval
import DuckAcl.Soundness.RelationRemoval
import DuckAcl.Library.Memo
import DuckAcl.Model.Resolution
import DuckAcl.Model.ResultCaches
import DuckAcl.Soundness.ResultCaches
import DuckAcl.Library.Transactions
import DuckAcl.Model.Alterations
import DuckAcl.Soundness.Alterations
import DuckAcl.Model.SchemaGrants
import DuckAcl.Soundness.SchemaGrants
import DuckAcl.Soundness.UnionMasks
import DuckAcl.Library.KeyedLists
import DuckAcl.Soundness.RoleOrder
import DuckAcl.Soundness.FlatLists
import DuckAcl.Library.Entries
import DuckAcl.Model.Sessions
import DuckAcl.Soundness.SessionSteps
import DuckAcl.Soundness.SessionLives
import DuckAcl.Soundness.SessionSeats
import DuckAcl.Soundness.ViewAsMemory
import DuckAcl.Library.Faults
import DuckAcl.Model.SchemaTransactions
import DuckAcl.Soundness.SchemaTransactions
import DuckAcl.Model.RecordUndo
import DuckAcl.Library.Bags
import DuckAcl.Soundness.RecordImages
import DuckAcl.Soundness.RecordUndo
import DuckAcl.Soundness.ForeignWrites
import DuckAcl.Library.Predicates
import DuckAcl.Soundness.RowFilters
import DuckAcl.Model.AliasQuery
import DuckAcl.Soundness.AliasGrants
import DuckAcl.Model.BodyReferences
import DuckAcl.Soundness.BodyReferences
import DuckAcl.Soundness.ColumnCsv
import DuckAcl.Model.SessionNotices
import DuckAcl.Soundness.TreeRebuilding
import DuckAcl.Soundness.SessionNotices
import DuckAcl.Model.StreamBudget
import DuckAcl.Library.Words
import DuckAcl.Soundness.StreamBudget
import DuckAcl.Model.AuditPipeline
import DuckAcl.Soundness.AuditPipeline
import DuckAcl.Model.KeyDocuments
import DuckAcl.Soundness.KeyDocuments
import DuckAcl.Model.FunctionCategories
import DuckAcl.Soundness.FunctionCategories
import DuckAcl.Model.FunctionDecisions
import DuckAcl.Soundness.FunctionDecisions
import DuckAcl.Model.FunctionModel
import DuckAcl.Model.Identity
import DuckAcl.Soundness.IdentityRouting
import DuckAcl.Soundness.FunctionChoice
import DuckAcl.Library.Json
import DuckAcl.Model.SessionState
import DuckAcl.Soundness.SessionState
import DuckAcl.Library.Joins
import DuckAcl.Model.ListingScope
import DuckAcl.Soundness.ListingScope
import DuckAcl.Model.FetchRequests
import DuckAcl.Soundness.FetchRequests
import DuckAcl.Soundness.FetchHolds
import DuckAcl.Library.Rankings
import DuckAcl.Model.DdlTargets
import DuckAcl.Soundness.DdlTargets
import DuckAcl.Soundness.ClientRoles
import DuckAcl.Soundness.FunctionListing
import DuckAcl.Soundness.FunctionPruning
import DuckAcl.Library.Binary64
import DuckAcl.Model.TokenTimes
import DuckAcl.Soundness.TokenTimes
import DuckAcl.Soundness.CookieReading
import DuckAcl.Model.ResourceGroups
import DuckAcl.Soundness.ResourceGroups
import DuckAcl.Library.JsonText
import DuckAcl.Model.ClientStorage
import DuckAcl.Soundness.ClientStorage
import DuckAcl.Soundness.ClientSpecs
import DuckAcl.Model.AdminLists
import DuckAcl.Soundness.AdminLists
import DuckAcl.Soundness.CarriedShape
import DuckAcl.Soundness.AlteredFacts
import DuckAcl.Library.Wildcards
import DuckAcl.Model.LikePatterns
import DuckAcl.Soundness.LikePatterns
import DuckAcl.Model.NameKeys
import DuckAcl.Soundness.NameKeys
import DuckAcl.Library.Spellings
import DuckAcl.Model.Spelling
import DuckAcl.Soundness.Spelling
import DuckAcl.Model.ExposedTypes
import DuckAcl.Soundness.ExposedTypes
import DuckAcl.Model.KeyFragments
import DuckAcl.Soundness.KeyFragments
import DuckAcl.Model.ListedTypes
import DuckAcl.Soundness.ListedTypes
import DuckAcl.Model.RenamedColumns
import DuckAcl.Soundness.RenamedColumns
import DuckAcl.Library.NamedFields
import DuckAcl.Model.FieldWrites
import DuckAcl.Soundness.FieldWrites
import DuckAcl.Library.SettledRuns
import DuckAcl.Model.UnionWidening
import DuckAcl.Soundness.UnionWidening
import DuckAcl.Model.AdminRights
import DuckAcl.Library.ListEdits
import DuckAcl.Model.IdentityEdits
import DuckAcl.Model.AdminCalls
import DuckAcl.Model.AdminWrites
import DuckAcl.Soundness.AdminRights
import DuckAcl.Soundness.AdminWrites
import DuckAcl.Soundness.AdminRuns
import DuckAcl.Soundness.IdentityEdits
import DuckAcl.Soundness.MappedAdministration
import DuckAcl.Library.Loops
import DuckAcl.Model.PhysicalReaders
import DuckAcl.Soundness.PhysicalReaders
