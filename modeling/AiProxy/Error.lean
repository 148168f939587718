/-!
# The error type of the proxy core

`ProxyError` with the variants of the source. An I/O error keeps its kind and text, the source
error of a failed response build is its text.
-/

namespace AiProxy

/-- The kinds of `std::io::Error` that the proxy core tells apart. -/
inductive IoErrorKind where
  | notFound
  | connectionRefused
  | timedOut
  | connectionReset
  | brokenPipe
  | unexpectedEof
  | invalidData
  | other
  deriving DecidableEq

inductive UpstreamFailureKind where
  | dns
  | connectRefused
  | connectTimeout
  | upstreamTls
  | upstreamReset
  | upstreamTimeout
  | other
  deriving DecidableEq

def UpstreamFailureKind.asStr : UpstreamFailureKind → String
  | dns => "dns"
  | connectRefused => "connect_refused"
  | connectTimeout => "connect_timeout"
  | upstreamTls => "upstream_tls"
  | upstreamReset => "upstream_reset"
  | upstreamTimeout => "upstream_timeout"
  | other => "other"

inductive ProxyError where
  | upstreamError (kind : UpstreamFailureKind) (message : String)
  /-- No response head within the request timeout. -/
  | upstreamTimeout (timeoutSecs : Nat)
  | tlsError (message : String)
  | ruleError (message : String)
  | breakpointCancelled
  | requestDropped
  | scriptTimeout
  | ioError (kind : IoErrorKind) (message : String)
  | responseBuildError (message : String)
  | other (message : String)
  deriving DecidableEq

def ProxyError.toText : ProxyError → String
  | upstreamError _ message => "upstream connection failed: " ++ message
  | upstreamTimeout secs => "upstream did not respond within " ++ toString secs ++ "s"
  | tlsError message => "TLS handshake failed: " ++ message
  | ruleError message => "rule application failed: " ++ message
  | breakpointCancelled => "breakpoint cancelled"
  | requestDropped => "request dropped by breakpoint"
  | scriptTimeout => "script execution timeout"
  | ioError _ message => "IO error: " ++ message
  | responseBuildError message => "failed to build HTTP response: " ++ message
  | other message => message

end AiProxy
