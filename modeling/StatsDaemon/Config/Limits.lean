import StatsDaemon.Document

namespace StatsDaemon.Config

structure Limits where
  -- Seconds that a graceful shutdown may take.
  shutdownTimeout : Nat := 10
  maxThreads : Nat
  -- Milliseconds that a backend may take for a batch.
  backendTimeout : Nat := 5000
  deriving DecidableEq

namespace Limits

open Document

def default (processors : Nat) : Limits :=
  { maxThreads := processors }

def threads (l : Limits) : Nat :=
  max l.maxThreads 1

def fieldNames : List String :=
  ["shutdown_timeout", "max_thread_count", "backend_timeout_ms"]

def ofDocument? {δ : Type} [Document δ] (processors : Nat) (d : δ) : Option Limits := do
  let [shutdownTimeout, maxThreads, backendTimeout] ← record? fieldNames d | none
  let default := default processors
  some
    { shutdownTimeout := ← orElse default.shutdownTimeout natural? shutdownTimeout
      maxThreads := ← orElse default.maxThreads natural? maxThreads
      backendTimeout := ← orElse default.backendTimeout natural? backendTimeout }

def toJson (l : Limits) : Json :=
  .obj
    [("shutdown_timeout", .ofNat l.shutdownTimeout),
      ("max_thread_count", .ofNat l.maxThreads),
      ("backend_timeout_ms", .ofNat l.backendTimeout)]

end Limits

end StatsDaemon.Config
