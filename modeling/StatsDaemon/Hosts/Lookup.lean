import StatsDaemon.Config.Cloud
import StatsDaemon.Http

namespace StatsDaemon.Hosts

inductive LookupFault where
  | timeout
  -- The request could not be sent or its answer not be read.
  | request
  | status (code : Nat)
  deriving DecidableEq, Repr

def LookupFault.message : LookupFault → String
  | .timeout => "lookup timed out"
  | .request => "failed to send lookup request"
  | .status code => "metadata service responded with status " ++ Http.statusText code

abbrev Answer := Except LookupFault (Option (List String))

def outcome : Answer → String
  | .ok (some _) => "found"
  | .ok none => "not_found"
  | .error .timeout => "timeout"
  | .error _ => "error"

structure Reply where
  answer : Answer
  delay : Nat := 0

structure Lookup where
  host : String
  due : Nat
  answer : Answer

namespace Lookup

-- Starts a lookup. An answer that comes just at the end of the time limit is in time.
def start (host : String) (reply : Reply) (timeout now : Nat) : Lookup :=
  if reply.delay ≤ timeout then ⟨host, now + reply.delay, reply.answer⟩
  else ⟨host, now + timeout, .error .timeout⟩

@[simp] theorem start_host (host : String) (reply : Reply) (timeout now : Nat) :
    (start host reply timeout now).host = host := by
  unfold start
  split <;> rfl

end Lookup

def lookupStatic (table : List (String × List String)) (host : String) : Answer :=
  .ok ((table.find? fun entry => entry.1 == host).map Prod.snd)

def requestUrl (service : Net.Url) (host : String) : String :=
  String.ofList ((service.text.toList.reverse.dropWhile (· = '/')).reverse) ++ "/" ++ host

def ofResponse (status : Nat) (body : Option Json) : Answer :=
  if status = 404 then .ok none
  else if Http.isSuccess status then
    match body.bind (Document.list? Document.text?) with
    | some tags => .ok (some tags)
    | none => .error .request
  else .error (.status status)

end StatsDaemon.Hosts
