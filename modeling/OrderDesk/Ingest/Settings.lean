import OrderDesk.Ingest.RetryPolicy

/-!
Settings of the ingestion of messages.
-/

namespace OrderDesk

structure IngestSettings where
  retry : RetryPolicy
  handlerTimeout : Span
  pollTimeout : Span
  /-- The time between two purges of processed keys; zero for none. -/
  cleanupInterval : Span
  maxAge : Span
deriving DecidableEq, Repr

/-- Half a minute per attempt, a tenth of a second per poll, and a purge every five minutes of what
is older than half an hour. -/
def IngestSettings.standard : IngestSettings where
  retry := .standard
  handlerTimeout := .ofSecs 30
  pollTimeout := .ofMillis 100
  cleanupInterval := .ofSecs 300
  maxAge := .ofSecs 1800

end OrderDesk
