import Clearotron.Register.UnknownTotals
import Clearotron.Plan.TermShape
import Clearotron.Executor.Dispatch
import Clearotron.Executor.Execute
import Clearotron.Executor.Turns
import Clearotron.Executor.Answers
import Clearotron.Driver.Parks
import Clearotron.Driver.LedgerRuns
import Clearotron.Runner.Watchers
import Clearotron.Runner.SlotLock
import Clearotron.Runner.Identity
import Clearotron.Runner.ClaimRuns
import Clearotron.Executor.FollowUpRuns
import Clearotron.Plan.Regions
import Clearotron.Coverage.Merge
import Clearotron.Coverage.RoundTrip
import Clearotron.Index.Search
import Clearotron.Index.Counts
import Clearotron.Records.Passes
import Clearotron.Positions.Orders
import Clearotron.Searches.Wider
import Clearotron.Recall.Endings
import Clearotron.WhatIf.Runs
import Clearotron.Grants.Sessions
import Clearotron.Driver.OutboxRuns
import Clearotron.Driver.FanInRuns
import Clearotron.Findings.FoldRecord
import Clearotron.Placement.Run
import Clearotron.Runner.MatterRuns
import Clearotron.Findings.FoldPasses
import Clearotron.Register.Bounded
import Clearotron.Declinations.Runs
import Clearotron.Synthesis.RecordRuns
import Clearotron.Plan.Products
import Clearotron.Synthesis.Repairs
import Clearotron.Queue.Order
import Clearotron.Band.Repairs
import Clearotron.Band.Merge
import Clearotron.Band.Sections
import Clearotron.Driver.Signatures
import Clearotron.Plan.GoodsWords
import Clearotron.Plan.FormBands
import Clearotron.Plan.Extend
import Clearotron.Searches.Owners
import Clearotron.Runner.Postponed
import Clearotron.Frame.Remedies
import Clearotron.Index.Question
import Clearotron.Index.CaseTrees
import Clearotron.Carry.Followed
import Clearotron.Records.LedgerLines
import Clearotron.Runner.MatterSignature
import Clearotron.Records.Citations
import Clearotron.Server.RateLimiter
import Clearotron.Shared.EnvMerge
import Clearotron.Coverage.Crowds
import Clearotron.Searches.GoodsRefusals
import Clearotron.Connotation.RowNumbers
import Clearotron.Verdict.Agree
import Clearotron.Archive.Promises
import Clearotron.Neighbourhood.Skeleton
import Clearotron.Neighbourhood.Oracle
import Clearotron.Neighbourhood.SeedRuns
import Clearotron.Runner.AllowanceAgrees
import Clearotron.Discards.Passes
import Clearotron.Framework.Rating
import Clearotron.Research.Sessions
