import Mathlib.Data.List.Basic
import Mathlib.Logic.Basic

/-!
# A subscription between two queues

A client asks a server for something that the server then goes on sending until the client gives it
back. Requests and replies are on their way in two queues, so neither side knows where the other one
is, and `Agrees` says what can be on its way while the client is in a given phase. It is kept by
everything the two sides do: a client that asks, gives back and waits for the reply in between is
never refused, and no reply finds it in a phase in which it does not expect it.
-/

namespace BoostConnector

namespace Conversation

inductive Request where
  | ask
  | giveBack
  deriving DecidableEq, Repr

inductive Reply where
  | granted
  | withdrawn
  | data
  | refused
  deriving DecidableEq, Repr

/-- Where a client that has something to do with the server is. -/
inductive Phase where
  | asking
  | having
  | leaving
  deriving DecidableEq, Repr

/-- Where a reply takes a client that expects it; `none` where it does not. -/
def Phase.next : Phase → Reply → Option (Option Phase)
  | asking, .granted => some (some .having)
  | having, .data => some (some .having)
  | leaving, .data => some (some .leaving)
  | leaving, .withdrawn => some none
  | _, _ => none

namespace Request

/-- Whether the server sends data once the request is granted. -/
def wants : Request → Bool
  | ask => true
  | giveBack => false

def reply : Request → Reply
  | ask => .granted
  | giveBack => .withdrawn

end Request

/-- What is on its way, the oldest first, and whether the server sends data. -/
structure Talk where
  requests : List Request := []
  granted : Bool := false
  replies : List Reply := []

namespace Talk

variable (t : Talk)

def send (r : Request) : Talk := { t with requests := t.requests ++ [r] }

/-- The server confirms a request, or refuses what it does already. -/
def verdict (r : Request) : Reply := if t.granted = r.wants then .refused else r.reply

/-- The server has answered the oldest request. -/
def answered (r : Request) (rest : List Request) : Talk where
  requests := rest
  granted := r.wants
  replies := t.replies ++ [t.verdict r]

def published : Talk := { t with replies := t.replies ++ [.data] }

end Talk

/-- What can be on its way: `none` is a client that has nothing to do with the server. -/
def Agrees : Option Phase → Talk → Prop
  | none, t => t = {}
  | some .asking, t => t = { requests := [.ask] } ∨
      ∃ n, t = { granted := true, replies := .granted :: List.replicate n .data }
  | some .having, t => ∃ n, t = { granted := true, replies := List.replicate n .data }
  | some .leaving, t =>
      (∃ n, t = { requests := [.giveBack], granted := true, replies := List.replicate n .data }) ∨
        ∃ n, t = { replies := List.replicate n .data ++ [.withdrawn] }

namespace Agrees

variable {p : Option Phase} {t : Talk}

/-! ## The client sends -/

theorem ask (h : Agrees none t) : Agrees (some .asking) (t.send .ask) := by
  obtain rfl := h
  exact .inl rfl

theorem giveBack (h : Agrees (some .having) t) : Agrees (some .leaving) (t.send .giveBack) := by
  obtain ⟨n, rfl⟩ := h
  exact .inl ⟨n, rfl⟩

/-! ## The server -/

theorem replicate_concat (n : ℕ) :
    List.replicate n Reply.data ++ [.data] = List.replicate (n + 1) .data :=
  List.replicate_succ'.symm

/-- No request is refused. -/
theorem answered (h : Agrees p t) {r : Request} {rest : List Request}
    (hrequests : t.requests = r :: rest) :
    t.verdict r ≠ .refused ∧ Agrees p (t.answered r rest) := by
  rcases p with _ | _ | _ | _
  · obtain rfl := h
    exact absurd hrequests (by simp)
  · rcases h with rfl | ⟨n, rfl⟩
    · obtain ⟨rfl, rfl⟩ := List.cons_eq_cons.mp hrequests
      -- no data can be before the confirmation
      exact ⟨by simp [Talk.verdict, Request.wants, Request.reply], .inr ⟨0, rfl⟩⟩
    · exact absurd hrequests (by simp)
  · obtain ⟨n, rfl⟩ := h
    exact absurd hrequests (by simp)
  · rcases h with ⟨n, rfl⟩ | ⟨n, rfl⟩
    · obtain ⟨rfl, rfl⟩ := List.cons_eq_cons.mp hrequests
      -- the data that was sent before the confirmation is read before it
      exact ⟨by simp [Talk.verdict, Request.wants, Request.reply], .inr ⟨n, rfl⟩⟩
    · exact absurd hrequests (by simp)

theorem published (h : Agrees p t) (hgranted : t.granted = true) : Agrees p t.published := by
  rcases p with _ | _ | _ | _
  · obtain rfl := h
    exact absurd hgranted (by simp)
  · rcases h with rfl | ⟨n, rfl⟩
    · exact absurd hgranted (by simp)
    · refine .inr ⟨n + 1, ?_⟩
      rw [Talk.published, ← replicate_concat]
      rfl
  · obtain ⟨n, rfl⟩ := h
    refine ⟨n + 1, ?_⟩
    rw [Talk.published, ← replicate_concat]
  · rcases h with ⟨n, rfl⟩ | ⟨n, rfl⟩
    · refine .inl ⟨n + 1, ?_⟩
      rw [Talk.published, ← replicate_concat]
    · exact absurd hgranted (by simp)

/-! ## The client receives -/

/-- The oldest reply is one that the client expects. -/
theorem received (h : Agrees p t) {r : Reply} {rest : List Reply}
    (hreplies : t.replies = r :: rest) :
    ∃ phase q, p = some phase ∧ phase.next r = some q ∧ Agrees q { t with replies := rest } := by
  rcases p with _ | _ | _ | _
  · obtain rfl := h
    exact absurd hreplies (by simp)
  · rcases h with rfl | ⟨n, rfl⟩
    · exact absurd hreplies (by simp)
    · obtain ⟨rfl, rfl⟩ := List.cons_eq_cons.mp hreplies
      exact ⟨.asking, _, rfl, rfl, n, rfl⟩
  · obtain ⟨n | n, rfl⟩ := h
    · exact absurd hreplies (by simp)
    · obtain ⟨rfl, rfl⟩ := List.cons_eq_cons.mp hreplies
      exact ⟨.having, _, rfl, rfl, n, rfl⟩
  · rcases h with ⟨n | n, rfl⟩ | ⟨n | n, rfl⟩
    · exact absurd hreplies (by simp)
    · obtain ⟨rfl, rfl⟩ := List.cons_eq_cons.mp hreplies
      exact ⟨.leaving, _, rfl, rfl, .inl ⟨n, rfl⟩⟩
    · obtain ⟨rfl, rfl⟩ := List.cons_eq_cons.mp hreplies
      exact ⟨.leaving, _, rfl, rfl, rfl⟩
    · obtain ⟨rfl, rfl⟩ := List.cons_eq_cons.mp hreplies
      exact ⟨.leaving, _, rfl, rfl, .inr ⟨n, rfl⟩⟩

/-! ## At rest -/

/-- The two sides agree when nothing is on its way. -/
theorem atRest (h : Agrees p t) (hrequests : t.requests = []) (hreplies : t.replies = []) :
    p = if t.granted then some .having else none := by
  rcases p with _ | _ | _ | _
  · obtain rfl := h
    rfl
  · rcases h with rfl | ⟨n, rfl⟩
    · exact absurd hrequests (by simp)
    · exact absurd hreplies (by simp)
  · obtain ⟨n, rfl⟩ := h
    rfl
  · rcases h with ⟨n, rfl⟩ | ⟨n, rfl⟩
    · exact absurd hrequests (by simp)
    · exact absurd hreplies (by simp)

end Agrees

end Conversation

end BoostConnector
