import AiProxy.Upstream.Proofs.WakeupProofs
import AiProxy.Rules.Proofs.ScriptBodyProofs
import AiProxy.Http.Proofs.HopByHopProofs
import AiProxy.Breakpoint.Proofs.ResolutionProofs
import AiProxy.Http.Proofs.StatusProofs
import AiProxy.Breakpoint.Proofs.ManagerProofs
import AiProxy.Rules.Proofs.ManagersProofs
import AiProxy.Rules.Proofs.ScriptGateProofs
import AiProxy.Rules.Proofs.ThrottleProofs
import AiProxy.Mcp.Proofs.SearchProofs
import AiProxy.Mcp.Proofs.PlaceholderProofs
import AiProxy.Db.Proofs.PaginationProofs
import AiProxy.Db.Proofs.KeywordProofs
import AiProxy.Mcp.Proofs.WaitProofs
import AiProxy.Agent.Proofs.ControlProofs
import AiProxy.Agent.Proofs.DecisionProofs
import AiProxy.Sessions.Proofs.BodyProofs
import AiProxy.Sessions.Proofs.CollectorProofs
import AiProxy.Sessions.Proofs.DetailReadProofs
import AiProxy.Sessions.Proofs.LruProofs
import AiProxy.Agent.Proofs.ReplayProofs
import AiProxy.Agent.Proofs.RateLimitsProofs
import AiProxy.Rules.Proofs.JsonPathProofs
import AiProxy.Rules.Proofs.PathParseProofs
import AiProxy.Rules.Proofs.WildcardProofs
import AiProxy.Upstream.Proofs.RegistrationProofs
import AiProxy.Ws.Proofs.CodecProofs
import AiProxy.Ws.Proofs.ReassemblyProofs
import AiProxy.Rules.Proofs.MapProofs
import AiProxy.Rules.Proofs.ReorderProofs
import AiProxy.Tunnel.Proofs.HostPatternProofs
import AiProxy.Tunnel.Proofs.RelayProofs
import AiProxy.Tunnel.Proofs.ResponseHeadProofs
import AiProxy.Upstream.Proofs.BodyCaptureProofs
import AiProxy.Mcp.Proofs.DuplicateProofs
import AiProxy.Mcp.Proofs.PagingProofs
import AiProxy.Mcp.Proofs.PowerShellProofs
import AiProxy.Mcp.Proofs.UrlRedactionProofs
import AiProxy.Export.Proofs.RelativePathProofs
import AiProxy.Compare.Proofs.TimelineProofs
import AiProxy.Tls.Proofs.RootFilesProofs
