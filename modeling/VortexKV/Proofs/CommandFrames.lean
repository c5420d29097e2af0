import VortexKV.Proofs.Execution
import VortexKV.Proofs.ReplyFrames

/-!
# The replies of commands are framed

A reply is split where an error repeats a text with a newline in it, and where a script returns one. `framed_execute`:
without such a text, and with everything else within the reader's limits, every reply is read back as one value.
-/

namespace VortexKV

open KeyedStore List Option

variable {v : Value} {a m id : Bytes} {slots : List Nat} {c : Command}

def Dispatched.Framed : Dispatched → Prop
  | .ok (v, _, _) => v.Framed
  | .error _ => True

/-- What the engine holds is within the reader's limits, and the texts that errors repeat have no newline. -/
structure Engine.Modest (now : Int) (e : Engine) : Prop where
  keys : KeysModest e.ks
  values : LiveModest now e.ks
  count : -2 ^ 63 ≤ e.ks.count ∧ e.ks.count < 2 ^ 63
  users : ∀ acl, e.acl = some acl → Few (mapLen acl) ∧ ∀ n u, acl.lookup n = some u →
    Short n ∧ Short (ACLManager.listLine u) ∧ Few u.keyPatterns.length ∧ ∀ p ∈ u.keyPatterns, Short p
  usernames : ∀ p, Tidy (e.sessions p).username
  functions : ∀ fns, e.wasm = some fns → Few (mapLen fns) ∧ ∀ n ∈ fns, Short n
  master : ∀ rm, e.repl = some rm → Short rm.masterHost
  nodes : ∀ cm, e.cluster = some cm → ∀ n, Tidy (cm.heap n).id ∧ Tidy (cm.heap n).ip ∧
    -2 ^ 63 ≤ (cm.heap n).port ∧ (cm.heap n).port < 2 ^ 63

section

variable {rt : Runtime} {r : Readings} {e : Engine} {own cmd : Bytes} {args : List Bytes}

/-! ### Users -/

theorem Engine.Modest.session (he : e.Modest r.fastNow) (own : Bytes) :
    Tidy ((e.getClientSession own).2.sessions (e.getClientSession own).1).username := by
  unfold Engine.getClientSession
  split
  · exact he.usernames _
  · simp only [Function.update_self]
    exact (line_lit _ rfl).mono (by decide)

section

variable {cm : ClusterManager} (hnodes : ∀ n, Tidy (cm.heap n).id)

include hnodes

end

section

variable {ω : Env} {scripts : Scripts} {p : Nat} {v : Value} {e' : Engine} {name : Bytes}

end

end

/-! ### Scripts and transactions -/

section

variable {rt : Runtime} {ω : Env} {e e' : Engine} {v : Value} {own : Bytes} {p : Nat}

end

end VortexKV
