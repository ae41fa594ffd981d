import RePlace.Http.Refinement
import RePlace.Http.Finalize
import RePlace.Http.Dispatch
import RePlace.Http.PlainTable
import RePlace.Data.PatternMatch
import RePlace.Http.OpenEnd
import RePlace.Http.ParamTable
import RePlace.Data.CarryTrie
import RePlace.Http.Independence
import RePlace.Http.Connection
import RePlace.Http.ReadSplitting
import RePlace.Data.History
import RePlace.Entity.User
import RePlace.Repo.UserPg
import RePlace.Repo.Valkey
import RePlace.Service.Auth
import RePlace.Service.Accounts
import RePlace.Service.Credentials
import RePlace.Service.SessionLife
import RePlace.Api.Auth
import RePlace.Api.SessionCookie
import RePlace.Repo.SessionRecord
import RePlace.Service.SessionReplies
import RePlace.Crypto.PasswordOverloads
import RePlace.Entity.UserOverloads
import RePlace.Service.Registration
import RePlace.Service.Admission
import RePlace.Api.BodyParameters
import RePlace.Api.CookieScan
import RePlace.Http.LifeCycle
import RePlace.Http.Integrity
import RePlace.Data.Captures
import RePlace.Http.PathParams
import RePlace.Http.Reads
import RePlace.Http.EndpointGroups
import RePlace.Data.Lines
import RePlace.Http.Framing
import RePlace.Api.ContentLength
import RePlace.Data.JsonString
import RePlace.Http.JsonText
import RePlace.Api.CredentialText
import RePlace.Repo.RecordText
import RePlace.Entity.UserMutations
import RePlace.Uuid.Compare
import RePlace.Data.Objects
import RePlace.Uuid.Buffer
import RePlace.Uuid.Programs
import RePlace.Http.Spans
import RePlace.Data.Fallible
import RePlace.Http.DistinctPaths
import RePlace.Http.FinalizeRoom
import RePlace.Api.Setup
import RePlace.Api.Execution
import RePlace.Api.Application
import RePlace.Api.Sessions
import RePlace.Api.Accounts
import RePlace.Api.Site
import RePlace.Api.Exchange
import RePlace.Data.Simulation
import RePlace.Repo.Faults
import RePlace.Service.Faults
import RePlace.Service.FaultyRuns
import RePlace.Service.FaultySessions
import RePlace.Repo.TimedStore
import RePlace.Service.Template
import RePlace.Service.TimedSessions
import RePlace.Service.TimedRefinement
import RePlace.Http.Allocations
import RePlace.Service.Mocks
import RePlace.Service.MockAgreement
import RePlace.Service.Handles
import RePlace.Api.FaultyApplication
import RePlace.Api.FaultyOwner
import RePlace.Api.TimedApplication
import RePlace.Api.FaultyReplies
import RePlace.Api.Isolation
import RePlace.Api.PasswordRenaming
