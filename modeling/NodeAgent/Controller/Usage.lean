import NodeAgent.Controller.Model.Views
import NodeAgent.Shared.Model.Node
/-!
# The usage a biller reads

The panel reads `GET /tenants/{id}/usage` from time to time and bills the
difference to its last reading of the period. Between the creation and the
deletion of a tenant the readings only go up, whatever is called, whichever
writes fail, and however often the node is started again, as long as its
counters stay in range and no restart finds the latest write of its record
lost. So no bill is negative, and what a period has been billed is what
was last read in it.
-/

namespace NodeAgent

namespace UsageViewModel

/-- The period, then the bytes. -/
def counters (v : UsageViewModel) : ℕ ×ₗ ℤ :=
  toLex (v.periodID.toNat, v.usedBytes.toInt)

end UsageViewModel

theorem tenantUsage_of_get {reg : Registry} {id : String} {t : Tenant}
    (h : reg.get id = some t) : tenantUsage reg id = .ok (usageView t) := by
  rw [tenantUsage, h]

/-! ## A biller -/

/-- **What a biller remembers**: for each period the value it read last,
and what it has charged. -/
structure Biller where
  last : UInt64 → ℤ
  billed : UInt64 → ℤ

namespace Biller

/-- Nothing has been read. -/
def new : Biller :=
  ⟨fun _ => 0, fun _ => 0⟩

/-- What a reading is charged: the difference to the last one of its
period. -/
def charge (b : Biller) (v : UsageViewModel) : ℤ :=
  v.usedBytes.toInt - b.last v.periodID

/-- A reading, charged and remembered. -/
def read (b : Biller) (v : UsageViewModel) : Biller where
  last := Function.update b.last v.periodID v.usedBytes.toInt
  billed := Function.update b.billed v.periodID (b.billed v.periodID + b.charge v)

/-- **The biller is not ahead of a tenant**: it has charged what it read,
no period to come, and of this one no more than is used. -/
structure Behind (b : Biller) (t : Tenant) : Prop where
  exact : ∀ p, b.billed p = b.last p
  future : ∀ p, t.periodID < p → b.last p = 0
  present : b.last t.periodID ≤ t.usedBytes.toInt
  nonneg : 0 ≤ t.usedBytes.toInt

variable {b : Biller} {t t' : Tenant}

theorem Behind.grows (h : b.Behind t) (hgrows : t.Grows t') : b.Behind t' := by
  have hnonneg := hgrows.nonneg h.nonneg
  rcases Prod.Lex.toLex_le_toLex.1 hgrows.counters with hlt | ⟨heq, hle⟩
  · have hlt' : t.periodID < t'.periodID := UInt64.lt_iff_toNat_lt.2 hlt
    refine ⟨h.exact, fun p hp => h.future p (UInt64.lt_trans hlt' hp), ?_, hnonneg⟩
    rw [h.future _ hlt']
    exact hnonneg
  · have heq' : t.periodID = t'.periodID := UInt64.toNat_inj.1 heq
    refine ⟨h.exact, fun p hp => h.future p (heq' ▸ hp), ?_, hnonneg⟩
    rw [← heq']
    exact h.present.trans hle

theorem Behind.read (h : b.Behind t) : (b.read (usageView t)).Behind t := by
  refine ⟨fun p => ?_, fun p hp => ?_, ?_, h.nonneg⟩
  · show Function.update b.billed t.periodID _ p = Function.update b.last t.periodID _ p
    rw [Function.update_apply, Function.update_apply]
    split_ifs with hp
    · rw [charge, h.exact]
      show b.last t.periodID + (t.usedBytes.toInt - b.last t.periodID) = t.usedBytes.toInt
      omega
    · exact h.exact p
  · show Function.update b.last t.periodID _ p = 0
    rw [Function.update_of_ne (UInt64.ne_of_lt hp).symm]
    exact h.future p hp
  · show Function.update b.last t.periodID t.usedBytes.toInt t.periodID ≤ _
    rw [Function.update_self]

end Biller

/-! ## A node that is read -/

/-- A node, and the biller of one of its tenants. -/
structure Watched (σ : Type) where
  node : Node σ
  biller : Biller

namespace Watched

/-- Something happens on the node, or the biller reads. -/
inductive Event
  | node (l : NodeEvent)
  | read

variable {σ : Type} (X : Externals) (S : RecordStore String Tenant σ) (id : String)

/-- One step. -/
def step (w : Watched σ) : Event → Watched σ
  | .node l => { w with node := w.node.step X S l }
  | .read =>
    match tenantUsage w.node.m.reg id with
    | .ok v => { w with biller := w.biller.read v }
    | .error _ => w

/-- **The tenant is left to be billed.** -/
def Billable (w : Watched σ) : Event → Prop
  | .node l => w.node.Billable S id l
  | .read => True

instance (w : Watched σ) (l : Event) : Decidable (w.Billable S id l) :=
  match l with
  | .node l => inferInstanceAs (Decidable (w.node.Billable S id l))
  | .read => inferInstanceAs (Decidable True)

end Watched

/-! ## Whole runs -/

namespace Node

variable {σ : Type} {X : Externals} {S : RecordStore String Tenant σ}
variable {rep : σ → (String → Option Tenant) → Prop} {n : Node σ} {id : String} {t : Tenant}

theorem current_step (hS : S.Represents Tenant.id rep) (h : n.journal.Current rep)
    (l : NodeEvent) : (n.step X S l).journal.Current rep := by
  rw [journal_step]
  exact h.foldl hS _

theorem current_of_path (hS : S.Represents Tenant.id rep) {forceInbounds : List String}
    (h : Runs.Path (step X S) (fun _ _ => True) (start S forceInbounds) n) :
    n.journal.Current rep :=
  h.invariant (I := fun n => n.journal.Current rep) (fun _ l hn _ => current_step hS hn l)
    (Journal.current_start hS)

/-- **A billable step does not take the counters back.** -/
theorem grows_step (hS : S.Represents Tenant.id rep) (h : n.journal.Current rep) {l : NodeEvent}
    (hl : n.Billable S id l) (ht : n.m.reg.get id = some t) :
    ∃ t', (n.step X S l).m.reg.get id = some t' ∧ t.Grows t' := by
  have hreg : (n.step X S l).m.reg = ((n.lives l).foldl (Journal.step S) n.journal).reg := by
    rw [← journal_step]
    rfl
  rw [hreg]
  exact Journal.grows_foldl hS h hl ht

theorem get_of_creates {p : Registry.CreateParams} {l : NodeEvent} (hl : l.Creates p)
    (hnew : n.m.reg.get p.id = none) (hmade : (n.step X S l).m.reg.get p.id ≠ none) :
    (n.step X S l).m.reg.get p.id = some p.tenant := by
  have hcreate : ∀ saved, (n.m.reg.createTenant saved p).1.get p.id ≠ none →
      (n.m.reg.createTenant saved p).1.get p.id = some p.tenant := by
    intro saved hsome
    rcases Registry.createTenant_outcome n.m.reg saved p with ⟨-, hsame⟩ | ⟨-, hreg⟩
    · rw [hsame.get] at hsome
      exact absurd hnew hsome
    · rw [hreg.get, if_pos rfl]
  cases l with
  | op env op =>
    cases op with
    | createTenant p' =>
      cases hl
      exact hcreate (env.save p.id) hmade
    | _ => cases hl
  | call e =>
    have hreg : (n.step X S (.call e)).m.reg = (n.m.reg.exec e).1 := rfl
    have hexec : (n.m.reg.exec e).1 = (n.m.reg.createTenant (e.saved p.id) p).1 := by
      have hcall : e.call = .createTenant p := hl
      simp [Registry.exec, hcall, Registry.answer]
    rw [hreg, hexec] at hmade ⊢
    exact hcreate (e.saved p.id) hmade
  | restart o forceInbounds => cases hl

end Node

namespace Watched

variable {σ : Type} {X : Externals} {S : RecordStore String Tenant σ}
variable {rep : σ → (String → Option Tenant) → Prop} {w w' : Watched σ} {id : String}
variable {t : Tenant}

/-- **What a run keeps**: the store current, and the tenant there, with
its biller behind it. -/
structure Fair (rep : σ → (String → Option Tenant) → Prop) (id : String) (w : Watched σ)
    (t : Tenant) : Prop where
  current : w.node.journal.Current rep
  found : w.node.m.reg.get id = some t
  behind : w.biller.Behind t

theorem Fair.step (hS : S.Represents Tenant.id rep) (h : w.Fair rep id t) {l : Event}
    (hl : w.Billable S id l) : ∃ t', (w.step X S id l).Fair rep id t' ∧ t.Grows t' := by
  cases l with
  | node l =>
    obtain ⟨t', ht', hgrows⟩ := Node.grows_step (X := X) hS h.current hl h.found
    exact ⟨t', ⟨Node.current_step hS h.current l, ht', h.behind.grows hgrows⟩, hgrows⟩
  | read =>
    have hstep : w.step X S id .read = { w with biller := w.biller.read (usageView t) } := by
      simp only [Watched.step, tenantUsage_of_get h.found]
    rw [hstep]
    exact ⟨t, ⟨h.current, h.found, h.behind.read⟩, .refl t⟩

theorem Fair.of_path (hS : S.Represents Tenant.id rep) (h : w.Fair rep id t)
    (hrun : Runs.Path (Watched.step X S id) (Billable S id) w w') :
    ∃ t', w'.Fair rep id t' ∧ t.Grows t' := by
  refine hrun.invariant (I := fun w' => ∃ t', w'.Fair rep id t' ∧ t.Grows t') ?_ ⟨t, h, .refl t⟩
  rintro w₁ l ⟨t₁, hfair₁, hgrows₁⟩ hl
  obtain ⟨t₂, hfair₂, hgrows₂⟩ := hfair₁.step hS hl
  exact ⟨t₂, hfair₂, hgrows₁.trans hgrows₂⟩

end Watched

/-- **A biller never sees usage go back.** Take any run of a node up to
the creation of a tenant, and from there any run of calls, operations and
restarts that leaves it to be billed: its counters stay in range, it is not
deleted, and the node is restarted only when the latest write of its
record has gone through. At any two moments of it the later reading is no
smaller, period first; the bytes go down in a step only if the period goes
up; no charge is negative, and what a period has been charged is what was
read last in it. -/
theorem usage_never_decreases {σ : Type} (X : Externals) {S : RecordStore String Tenant σ}
    {rep : σ → (String → Option Tenant) → Prop} (hS : S.Represents Tenant.id rep)
    {forceInbounds : List String} {n : Node σ} {l : NodeEvent} {p : Registry.CreateParams}
    (hreach : Runs.Path (Node.step X S) (fun _ _ => True) (Node.start S forceInbounds) n)
    (hl : l.Creates p) (hnew : n.m.reg.get p.id = none)
    (hmade : (n.step X S l).m.reg.get p.id ≠ none) {w w' : Watched σ}
    (hrun : Runs.Path (Watched.step X S p.id) (Watched.Billable S p.id)
      ⟨n.step X S l, Biller.new⟩ w)
    (hrun' : Runs.Path (Watched.step X S p.id) (Watched.Billable S p.id) w w') :
    ∃ v v', tenantUsage w.node.m.reg p.id = .ok v ∧ tenantUsage w'.node.m.reg p.id = .ok v' ∧
      v.counters ≤ v'.counters ∧
      (∀ l', w'.Billable S p.id l' → ∃ v'',
        tenantUsage (w'.step X S p.id l').node.m.reg p.id = .ok v'' ∧
          (v''.usedBytes < v'.usedBytes → v'.periodID < v''.periodID)) ∧
      0 ≤ w'.biller.charge v' ∧
      w'.biller.billed v'.periodID + w'.biller.charge v' = v'.usedBytes.toInt := by
  have hcreated := Node.get_of_creates hl hnew hmade
  have hbehind : Biller.new.Behind p.tenant :=
    ⟨fun _ => rfl, fun _ _ => rfl, le_rfl, le_rfl⟩
  have hfair₀ : Watched.Fair rep p.id ⟨n.step X S l, Biller.new⟩ p.tenant :=
    ⟨Node.current_step hS (Node.current_of_path hS hreach) l, hcreated, hbehind⟩
  obtain ⟨t, hfair, -⟩ := hfair₀.of_path hS hrun
  obtain ⟨t', hfair', hgrows⟩ := hfair.of_path hS hrun'
  refine ⟨usageView t, usageView t', tenantUsage_of_get hfair.found,
    tenantUsage_of_get hfair'.found, hgrows.counters, fun l' hl' => ?_, ?_, ?_⟩
  · obtain ⟨t'', hfair'', hgrows'⟩ := hfair'.step (X := X) hS hl'
    refine ⟨usageView t'', tenantUsage_of_get hfair''.found, fun hless => ?_⟩
    rcases Prod.Lex.toLex_le_toLex.1 hgrows'.counters with hlt | ⟨-, hle⟩
    · exact UInt64.lt_iff_toNat_lt.2 hlt
    · exact absurd (Int64.lt_iff_toInt_lt.1 hless) (not_lt.2 hle)
  · have hpresent := hfair'.behind.present
    show 0 ≤ t'.usedBytes.toInt - w'.biller.last t'.periodID
    omega
  · rw [hfair'.behind.exact, Biller.charge]
    show w'.biller.last t'.periodID + (t'.usedBytes.toInt - w'.biller.last t'.periodID) =
      t'.usedBytes.toInt
    omega

/-! ## A worked run -/

namespace Demo

def registration : Registry.CreateParams :=
  ⟨"a", "k", 1000, 0, 0, 7⟩

def event (c : Call) (saved : Bool) : Watched.Event :=
  .node (.call ⟨c, fun _ => saved, .given⟩)

def early : List Watched.Event :=
  [event (.addUsage "a" 700) true, .read]

/-- A write fails, the next one does not, and the node is started again;
the agent resets the tenant, and the biller reads. -/
def late : List Watched.Event :=
  [event (.addUsage "a" (-5)) false, event (.addUsage "a" 50) false, event (.enforce 3) true,
    event (.suspend "a" .manual) true, .node (.restart .reversed []),
    .node (.op .calm (.reset "a" true)), .read]

def registered : Watched (GoMap String Json) where
  node := (Node.start (boltStore jsonCodec) []).step externals (boltStore jsonCodec)
    (.call ⟨.createTenant registration, fun _ => true, .given⟩)
  biller := .new

def runWatched (ls : List Watched.Event) (w : Watched (GoMap String Json)) :
    Watched (GoMap String Json) :=
  ls.foldl (Watched.step externals (boltStore jsonCodec) "a") w

end Demo

/-- The later reading is of the eighth period, which has no bytes yet; the
seventh was charged what was read of it. -/
theorem usage_never_decreases_renewed :
    let w := Demo.runWatched Demo.early Demo.registered
    let w' := Demo.runWatched Demo.late w
    (∃ v v', tenantUsage w.node.m.reg "a" = .ok v ∧ tenantUsage w'.node.m.reg "a" = .ok v' ∧
      v.counters ≤ v'.counters) ∧
    (w.node.m.reg.get "a").map (fun t => (t.periodID, t.usedBytes)) = some (7, 700) ∧
    (w'.node.m.reg.get "a").map (fun t => (t.periodID, t.usedBytes)) = some (8, 0) ∧
    w'.biller.billed 7 = 700 := by
  intro w w'
  have hrun : Runs.Path (Watched.step Demo.externals (boltStore jsonCodec) "a")
      (Watched.Billable (boltStore jsonCodec) "a") Demo.registered w :=
    Runs.Path.refl.append (by decide +kernel)
  have hrun' : Runs.Path (Watched.step Demo.externals (boltStore jsonCodec) "a")
      (Watched.Billable (boltStore jsonCodec) "a") w w' :=
    Runs.Path.refl.append (by decide +kernel)
  obtain ⟨v, v', hv, hv', hle, -⟩ := @usage_never_decreases _ Demo.externals _ _
    (boltStore_represents jsonCodec_roundTrips) [] (Node.start (boltStore jsonCodec) [])
    (.call ⟨.createTenant Demo.registration, fun _ => true, .given⟩) Demo.registration
    .refl rfl (by decide +kernel) (by decide +kernel) w w' hrun hrun'
  exact ⟨⟨v, v', hv, hv', hle⟩, by decide +kernel, by decide +kernel, by decide +kernel⟩

end NodeAgent
