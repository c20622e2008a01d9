import SqlWeave.Text.Quoted
import SqlWeave.MySQL.Lexer
import SqlWeave.Postgres.Lexer
import SqlWeave.Value.Describe
import SqlWeave.Value.Same
import SqlWeave.Value.Kind
import SqlWeave.Options.Basic
import SqlWeave.Name
import SqlWeave.MySQL.Grammar
import SqlWeave.Postgres.Grammar
import SqlWeave.Template.Tag
import SqlWeave.Report
import SqlWeave.Proofs.Lexer.Agreement
import SqlWeave.Proofs.Lexer.Body
import SqlWeave.Proofs.Decoding
import SqlWeave.Proofs.Lexer.Feeding
import SqlWeave.Proofs.Postgres.Opener
import SqlWeave.Proofs.Text.Digits
import SqlWeave.Proofs.Postgres.Decoding
import SqlWeave.Proofs.MySQL.Literal
import SqlWeave.Proofs.Postgres.Literal
import SqlWeave.Proofs.MySQL.Reading
import SqlWeave.Proofs.Value.Leaves
import SqlWeave.Proofs.Series
import SqlWeave.Proofs.Value.Fragments
import SqlWeave.Proofs.Writing
import SqlWeave.Proofs.Beginnings
import SqlWeave.Proofs.Postgres.Dollar
import SqlWeave.Proofs.Postgres.Guards
import SqlWeave.Proofs.Template.Run
import SqlWeave.Proofs.MySQL.Cut
import SqlWeave.Proofs.MySQL.Comment
import SqlWeave.Proofs.Number.Numeral
import SqlWeave.Proofs.MySQL.Standing
import SqlWeave.Proofs.Template.Seam
import SqlWeave.Proofs.Postgres.Comment
import SqlWeave.Proofs.Splice
import SqlWeave.Proofs.ReadBack
import SqlWeave.Proofs.MySQL.Names
import SqlWeave.Proofs.MySQL.Statement
import SqlWeave.Proofs.Postgres.Names
import SqlWeave.Proofs.Postgres.Reading
import SqlWeave.Proofs.Postgres.Conventions
import SqlWeave.Proofs.Postgres.Cut
import SqlWeave.Proofs.Postgres.Parts
import SqlWeave.Proofs.Postgres.OpenComment
import SqlWeave.Proofs.Postgres.Fusion
import SqlWeave.Proofs.Postgres.Continuation
import SqlWeave.Proofs.Postgres.Standing
import SqlWeave.Proofs.Postgres.SelfContained
import SqlWeave.Proofs.Postgres.Gap
import SqlWeave.Proofs.Postgres.Settled
import SqlWeave.Proofs.Postgres.Seams
import SqlWeave.Proofs.Postgres.Statement
import SqlWeave.Proofs.Postgres.TakenUp
import SqlWeave.Proofs.Postgres.Joining
import SqlWeave.Proofs.Template.Neighbours
import SqlWeave.Proofs.Recognised
import SqlWeave.Proofs.Boundary
import SqlWeave.Proofs.NamesReadBack
import SqlWeave.Proofs.Forgery
import SqlWeave.Proofs.Template.OwnOutput
import SqlWeave.Proofs.Registry
import SqlWeave.Proofs.Calendar.DayCount
import SqlWeave.Proofs.Calendar.Zone
import SqlWeave.Proofs.Calendar.Reading
import SqlWeave.Proofs.Calendar.Instant
import SqlWeave.Proofs.Postgres.LongestGap
import SqlWeave.Proofs.Postgres.FragmentNames
import SqlWeave.Proofs.Places
import SqlWeave.Proofs.Expression
import SqlWeave.Proofs.NamesAccepted
import SqlWeave.Proofs.Blobs
import SqlWeave.Proofs.Lexer.Stops
import SqlWeave.Proofs.MySQL.Inert
import SqlWeave.Proofs.Failures
import SqlWeave.Proofs.Lexer.Loop
import SqlWeave.Proofs.Postgres.Rounds
import SqlWeave.Proofs.Progress
