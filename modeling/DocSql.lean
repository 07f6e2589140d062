import DocSql.Document.Json
import DocSql.Document.Path
import DocSql.Statement
import DocSql.Command.Basic
import DocSql.Session.Query
import DocSql.Proofs.ConditionGrammar
import DocSql.Proofs.Precedence
import DocSql.Proofs.Lowering
import DocSql.Proofs.FreshNames
import DocSql.Proofs.GroupingPlan
import DocSql.Proofs.GroupingFaithful
import DocSql.Proofs.PathReads
import DocSql.Proofs.GroupingReads
import DocSql.Proofs.GroupedQuery
import DocSql.Proofs.ClauseTiling
import DocSql.Proofs.FindForm
import DocSql.Proofs.StageOrder
import DocSql.Proofs.Placeholders
import DocSql.Proofs.RowReading
import DocSql.Proofs.SequenceRuns
import DocSql.Proofs.BoundData
import DocSql.Proofs.AcceptedConditions
import DocSql.Proofs.CollectionsRead
import DocSql.Proofs.AliasReading
import DocSql.Proofs.InsignificantText
import DocSql.Proofs.TextRoundTrip
import DocSql.Proofs.ExactNegation
import DocSql.Proofs.FailedCalls
import DocSql.Proofs.SchemaRuns
import DocSql.Proofs.WriteFilters
import DocSql.Proofs.OperatorChains
import DocSql.Proofs.LikePatterns
import DocSql.Proofs.PlainOrder
import DocSql.Proofs.GroupStageReads
import DocSql.Proofs.DistinctRows
import DocSql.Proofs.SortOrder
import DocSql.Proofs.CountRows
import DocSql.Proofs.EmptyGroups
import DocSql.Proofs.ListMembers
import DocSql.Proofs.AggregateSearch
import DocSql.Proofs.OuterJoins
import DocSql.Proofs.JoinSides
import DocSql.Proofs.RegisteredSubselects
import DocSql.Proofs.UpdateMeaning
import DocSql.Proofs.InsertForms
import DocSql.Proofs.ArithmeticOperands
import DocSql.Proofs.KeywordMatching
import DocSql.Proofs.LexemeCover
import DocSql.Proofs.NameSuffixes
