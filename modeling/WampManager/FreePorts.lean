/-
# Free ports

The installers of MySQL run their servers on ports of their own first, drawn at random
until one is free. The loop skips a port of the exclude list with `continue`, which
leads on to its condition, and the condition reads what the last look at the endpoints
found. Before the first look there is nothing to read, and that counts as free.
-/

import WampManager.Verify

namespace WampManager

namespace Util

section FreePort

variable (sqlite : Sqlite) (db : Database) (output : Option Text)

/-- `endpointInUse('tcp', '127.0.0.1', $random_port)`. -/
def localTCPInUse (randomPort : ℤ) : Bool :=
  endpointInUse sqlite db output "tcp".toList (.text "127.0.0.1".toList) (.int randomPort)

/-- The loop over the ports that are drawn. The condition reads `port`, which an excluded
port leaves as it was. -/
def freePortLoop (exclude : List ℤ) : Bool → List ℤ → Option ℤ
  | _, [] => none
  | port, randomPort :: draws =>
      let port := if randomPort ∈ exclude then port else localTCPInUse sqlite db output randomPort
      if port then freePortLoop exclude port draws else some randomPort

/-- `Util::getFreeLocalTCPPort`: the port it returns, if the draws get that far. A
variable that is not set reads as false. -/
def getFreeLocalTCPPort (exclude draws : List ℤ) : Option ℤ :=
  freePortLoop sqlite db output exclude false draws

/-- A port that may be handed out. -/
def IsFree (exclude : List ℤ) (port : ℤ) : Prop :=
  port ∉ exclude ∧ localTCPInUse sqlite db output port = false

variable {sqlite db output}

/-- Once a port was found in use, only a free port ends the loop. -/
theorem isFree_of_freePortLoop {exclude draws : List ℤ} {port : ℤ}
    (h : freePortLoop sqlite db output exclude true draws = some port) :
    IsFree sqlite db output exclude port := by
  induction draws with
  | nil => cases h
  | cons randomPort draws ih =>
      rw [freePortLoop] at h
      by_cases hexcluded : randomPort ∈ exclude
      · rw [if_pos hexcluded, if_pos rfl] at h
        exact ih h
      · cases hused : localTCPInUse sqlite db output randomPort with
        | true =>
            rw [if_neg hexcluded, hused, if_pos rfl] at h
            exact ih h
        | false =>
            rw [if_neg hexcluded, hused, if_neg Bool.false_ne_true] at h
            obtain rfl := Option.some.inj h
            exact ⟨hexcluded, hused⟩

/-- The port that is returned is free exactly if the first one that is drawn is not
excluded. -/
theorem free_port_is_free (sqlite : Sqlite) (db : Database) (output : Option Text)
    (exclude draws : List ℤ) :
    (∀ port, getFreeLocalTCPPort sqlite db output exclude draws = some port →
        IsFree sqlite db output exclude port) ↔
      ∀ first ∈ draws.head?, first ∉ exclude := by
  cases draws with
  | nil => simp [getFreeLocalTCPPort, freePortLoop]
  | cons first draws =>
      rw [List.head?_cons, getFreeLocalTCPPort, freePortLoop]
      constructor
      · intro h _ hfirst
        obtain rfl := Option.some.inj hfirst
        intro hexcluded
        rw [if_pos hexcluded, if_neg Bool.false_ne_true] at h
        exact (h first rfl).1 hexcluded
      · intro h port hport
        have hexcluded : first ∉ exclude := h first rfl
        cases hused : localTCPInUse sqlite db output first with
        | true =>
            rw [if_neg hexcluded, hused, if_pos rfl] at hport
            exact isFree_of_freePortLoop hport
        | false =>
            rw [if_neg hexcluded, hused, if_neg Bool.false_ne_true] at hport
            obtain rfl := Option.some.inj hport
            exact ⟨hexcluded, hused⟩

/-- A port that is excluded comes back if it is drawn first. -/
theorem excluded_port_returned :
    ¬ ∀ (sqlite : Sqlite) (db : Database) (output : Option Text) (exclude draws : List ℤ)
        (port : ℤ), getFreeLocalTCPPort sqlite db output exclude draws = some port →
          IsFree sqlite db output exclude port := by
  intro h
  have hreturned : getFreeLocalTCPPort ⟨fun _ => .null⟩ .empty none [12345] [12345, 12346] =
      some 12345 := rfl
  exact (h _ _ _ _ _ _ hreturned).1 List.mem_cons_self

end FreePort

end Util

end WampManager
