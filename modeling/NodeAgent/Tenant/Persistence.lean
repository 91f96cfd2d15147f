import NodeAgent.Tenant.Helpers.Writes
/-!
# A restart changes nothing

Every operation of the registry changes its tenants in memory and, as a
separate act, writes to the store. As long as the writes go through, the
store holds exactly the tenants of the registry (`Backed.Kept`), whatever
kind of store it is, so a registry built from it has the same indexes and
decides the same on every key.
-/

namespace NodeAgent

theorem memStore_represents : memStore.Represents Tenant.id (RecordStore.MapOf id) :=
  RecordStore.inMap_represents

theorem boltStore_represents {β : Type} {c : Codec Tenant β} (hc : c.RoundTrips) :
    (boltStore c).Represents Tenant.id (RecordStore.MapOf c.marshal) :=
  RecordStore.encoded_represents hc

namespace Registry

variable {r r' : Registry} {e : RegistryEvent}

/-! ## The writes -/

theorem store_saveTenant (r : Registry) (saved : Bool) (t : Tenant) :
    (r.saveTenant saved t).1.store =
      (if saved then [Write.save t] else []).foldl memStore.apply r.store := by
  unfold saveTenant
  split <;> rfl

theorem store_modify (r : Registry) (saved : Bool) (id : String) (f : Tenant → Tenant) :
    (r.modify saved id f).1.store = (r.modifyWrites saved id f).foldl memStore.apply r.store := by
  unfold modify modifyWrites get
  cases r.byID.lookup id with
  | none => rfl
  | some t => exact store_saveTenant (r.put (f t)) saved (f t)

theorem store_enforce (r : Registry) (o : Order String) (saved : String → Bool) (now : Int64) :
    (r.enforce o saved now).1.store =
      (((r.enforce o saved now).2.filter fun c => saved c.tenant.id).map
        fun c => Write.save c.tenant).foldl memStore.apply r.store := by
  -- along the scan: what has been reported has been written, where it could be
  refine enforce_rule (I := fun acc => acc.1.store = ((acc.2.filter fun c => saved c.tenant.id).map
    fun c => Write.save c.tenant).foldl memStore.apply r.store) rfl (fun acc t hacc _ => ?_) o
  dsimp only at hacc ⊢
  rw [store_saveTenant, List.filter_append, List.map_append, List.foldl_append, ← hacc]
  by_cases hsaved : saved t.id = true
  · simp [hsaved, put]
  · simp [hsaved, put]

/-- **The writes of a call are what it does to a store in memory**, also
where some of them fail. -/
theorem store_exec (r : Registry) (e : RegistryEvent) :
    (r.exec e).1.store = (r.writes e).foldl memStore.apply r.store := by
  cases hcall : e.call with
  | createTenant p =>
    simp only [exec, writes, hcall, answer, createTenant, get]
    by_cases hid : (r.byID.lookup p.id).isSome <;>
      by_cases hkey : (r.byKey.lookup (hashKey p.apiKey)).isSome <;>
        by_cases hsaved : e.saved p.id = true <;>
          simp [hid, hkey, hsaved, saveTenant, put, memStore, RecordStore.apply,
            RecordStore.inMap]
  | get id => simp [exec, writes, hcall]
  | delete id =>
    simp only [exec, writes, hcall, delete, get]
    split
    · next hid => simp [hid]
    · next t hid =>
        by_cases hsaved : e.saved id = true <;>
          simp [hid, hsaved, drop, memStore, RecordStore.apply, RecordStore.inMap]
  | enforce now =>
    simp only [exec, writes, hcall]
    exact store_enforce ..
  | _ =>
    obtain ⟨id, f, h⟩ : ∃ id f, e.call.update = some (id, f) := by
      rw [hcall]
      exact ⟨_, _, rfl⟩
    rw [exec_of_update h, writes_of_update h]
    exact store_modify ..

/-! ## Loading -/

/-- **Two registries with the same indexes**, which therefore decide the
same on every key at every time. -/
structure Same (r r' : Registry) : Prop where
  byID : ∀ id, r.byID.lookup id = r'.byID.lookup id
  byKey : ∀ hash, r.byKey.lookup hash = r'.byKey.lookup hash
  authorize : ∀ key now, r.authorize key now = r'.authorize key now

theorem Same.of_lookups (hbyID : ∀ id, r.byID.lookup id = r'.byID.lookup id)
    (hbyKey : ∀ hash, r.byKey.lookup hash = r'.byKey.lookup hash) : r.Same r' where
  byID := hbyID
  byKey := hbyKey
  authorize := fun key now => by simp only [Registry.authorize, hbyID, hbyKey]

theorem byID_foldl_loadOne (ts : List Tenant) (r : Registry) :
    (ts.foldl loadOne r).byID = GoMap.insertAll r.byID (ts.map fun t => (t.id, t)) := by
  induction ts generalizing r with
  | nil => rfl
  | cons t ts ih =>
    have hone : (r.loadOne t).byID = r.byID.insert t.id t := by
      unfold loadOne
      dsimp only
      split_ifs <;> rfl
    rw [List.foldl_cons, ih, hone]
    rfl

theorem byKey_foldl_loadOne (ts : List Tenant) (r : Registry)
    (hlive : ∀ t ∈ ts, t.status ≠ .deleted) :
    (ts.foldl loadOne r).byKey =
      GoMap.insertAll r.byKey (ts.map fun t => (t.apiKeyHash, t.id)) := by
  induction ts generalizing r with
  | nil => rfl
  | cons t ts ih =>
    have hone : (r.loadOne t).byKey = r.byKey.insert t.apiKeyHash t.id := by
      rw [loadOne, if_pos (hlive t (by simp))]
      rfl
    rw [List.foldl_cons, ih (r.loadOne t) fun t' ht' => hlive t' (by simp [ht']), hone]
    rfl

/-- **The registry of the records of a function** finds what the function
has. -/
theorem get_ofTenants {d : String → Option Tenant} (hd : ∀ id t, d id = some t → t.id = id)
    {ts : List Tenant} (hnodup : (ts.map Tenant.id).Nodup) (hts : ∀ t, t ∈ ts ↔ d t.id = some t)
    (store : GoMap String Tenant) (id : String) : (ofTenants store ts).get id = d id := by
  have hids : (ts.map fun t => (t.id, t)).map Prod.fst = ts.map Tenant.id := by
    simp [Function.comp_def]
  show (ts.foldl loadOne _).byID.lookup id = d id
  rw [byID_foldl_loadOne]
  cases hget : d id with
  | none =>
    refine GoMap.lookup_insertAll_of_notMem ?_ _
    rw [hids, List.mem_map]
    rintro ⟨t, ht, rfl⟩
    cases hget.symm.trans ((hts t).1 ht)
  | some t =>
    have hid : t.id = id := hd id t hget
    have hmem : t ∈ ts := (hts t).2 (by rw [hid, hget])
    rw [← hid]
    exact GoMap.lookup_insertAll_of_mem (hids ▸ hnodup)
      (List.mem_map_of_mem (f := fun t => (t.id, t)) hmem) _

/-- **The registry of all tenants of a registry is that registry**, if its
indexes are inverse to each other. -/
theorem same_ofTenants (h : r.IndexesAgree) {ts : List Tenant} (hnodup : (ts.map Tenant.id).Nodup)
    (hts : ∀ t, t ∈ ts ↔ r.get t.id = some t) (store : GoMap String Tenant) :
    (ofTenants store ts).Same r := by
  have hbyKey := byKey_foldl_loadOne ts ⟨∅, ∅, store, fun _ _ h => by simp at h⟩
    fun t ht => h.live t.id t ((hts t).1 ht)
  have hhashes : (ts.map fun t => (t.apiKeyHash, t.id)).map Prod.fst =
      ts.map Tenant.apiKeyHash := by simp [Function.comp_def]
  -- tenants with one hash are one tenant, since the hash leads to one id
  have hdistinct : (ts.map Tenant.apiKeyHash).Nodup := by
    refine (List.Nodup.of_map _ hnodup).map_on fun t ht t' ht' heq => ?_
    have hkey := (h.byKey_iff t.apiKeyHash t.id).2 (by rw [(hts t).1 ht]; rfl)
    have hkey' := (h.byKey_iff t'.apiKeyHash t'.id).2 (by rw [(hts t').1 ht']; rfl)
    rw [heq, hkey'] at hkey
    have hid : t'.id = t.id := Option.some.inj hkey
    have hget := (hts t').1 ht'
    rw [hid, (hts t).1 ht] at hget
    exact Option.some.inj hget
  refine .of_lookups (get_ofTenants (fun id t => r.keyed id t) hnodup hts store) fun hash => ?_
  show (ts.foldl loadOne _).byKey.lookup hash = r.byKey.lookup hash
  rw [hbyKey]
  cases hget : r.byKey.lookup hash with
  | none =>
    refine GoMap.lookup_insertAll_of_notMem ?_ _
    rw [hhashes, List.mem_map]
    rintro ⟨t, ht, rfl⟩
    have hsome := (h.byKey_iff t.apiKeyHash t.id).2 (by rw [(hts t).1 ht]; rfl)
    cases hget.symm.trans hsome
  | some id =>
    obtain ⟨t, ht, rfl⟩ := Option.map_eq_some_iff.1 ((h.byKey_iff hash id).1 hget)
    have hid : t.id = id := r.keyed id t ht
    have hmem : t ∈ ts := (hts t).2 (by rw [hid, ht])
    rw [← hid]
    exact GoMap.lookup_insertAll_of_mem (hhashes ▸ hdistinct)
      (List.mem_map_of_mem (f := fun t => (t.apiKeyHash, t.id)) hmem) _

theorem IndexesAgree.congr (h : r.IndexesAgree) (hs : r'.Same r) : r'.IndexesAgree where
  byKey_iff := fun hash id => by
    have hget : r'.get id = r.get id := hs.byID id
    rw [hs.byKey, hget, h.byKey_iff]
  live := fun id t ht => h.live id t ((hs.byID id).symm.trans ht)

end Registry

/-! ## Runs -/

namespace Backed

variable {σ : Type} {S : RecordStore String Tenant σ} {rep : σ → (String → Option Tenant) → Prop}
variable {s : Backed σ}

/-- **The store holds the tenants of the registry**, whose indexes are
inverse to each other. -/
structure Kept (rep : σ → (String → Option Tenant) → Prop) (s : Backed σ) : Prop where
  disk : rep s.disk s.reg.get
  agree : s.reg.IndexesAgree

theorem Kept.reopen (hS : S.Represents Tenant.id rep) (h : s.Kept rep) (o : Order String) :
    ∃ r, Registry.openStore S o s.disk = some r ∧ r.Same s.reg := by
  obtain ⟨ts, hload, hnodup, hts⟩ := hS.load o h.disk fun id t ht => s.reg.keyed id t ht
  exact ⟨_, by rw [Registry.openStore, hload]; rfl,
    Registry.same_ofTenants h.agree hnodup hts _⟩

theorem kept_start (hS : S.Represents Tenant.id rep) : (start S).Kept rep where
  disk := hS.empty
  agree := Registry.indexesAgree_empty _

/-- **A call whose writes go through, and a restart, keep it.** -/
theorem Kept.step (hS : S.Represents Tenant.id rep) (h : s.Kept rep) {l : Life}
    (hl : l.AllSaved) : (s.step S l).Kept rep := by
  cases l with
  | call e =>
    refine ⟨?_, h.agree.exec e⟩
    have hget : (s.reg.exec e).1.get =
        (s.reg.writes e).foldl (RecordStore.update Tenant.id) s.reg.get :=
      funext (Registry.get_exec hl s.reg)
    show rep _ (s.reg.exec e).1.get
    rw [hget]
    exact hS.writes (s.reg.writes e) h.disk
  | restart o =>
    obtain ⟨r, hopen, hsame⟩ := h.reopen hS o
    have hreg : (s.step S (.restart o)).reg = r := by simp [Backed.step, hopen]
    have hget : r.get = s.reg.get := funext hsame.byID
    refine ⟨?_, ?_⟩
    · rw [hreg, hget]
      exact h.disk
    · rw [hreg]
      exact h.agree.congr hsame

/-- **So it holds throughout**, over any number of restarts. -/
theorem kept_of_path (hS : S.Represents Tenant.id rep)
    (h : Runs.Path (step S) (fun _ l => l.AllSaved) (start S) s) : s.Kept rep :=
  h.invariant (fun _ _ hs hl => hs.step hS hl) (kept_start hS)

theorem step_memStore (r : Registry) (e : RegistryEvent) :
    (⟨(r.exec e).1, (r.exec e).1.store⟩ : Backed (GoMap String Tenant)) =
      step memStore ⟨r, r.store⟩ (.call e) := by
  rw [Registry.store_exec]
  rfl

theorem kept_run {es : List RegistryEvent} (hes : ∀ e ∈ es, e.AllSaved) :
    Kept (RecordStore.MapOf id) ⟨(Logged.run es).reg, (Logged.run es).reg.store⟩ := by
  refine List.foldlRecOn (motive := fun s : Logged => Kept (RecordStore.MapOf id)
    ⟨s.reg, s.reg.store⟩) es Logged.step (b := Logged.start) ?_ ?_
  · exact kept_start memStore_represents
  · intro s hs e he
    show Kept _ ⟨(s.reg.exec e).1, (s.reg.exec e).1.store⟩
    rw [step_memStore]
    exact hs.step memStore_represents (hes e he)

end Backed

/-- **A restart changes nothing.** Take any sequence of calls in which
every write goes through. The registry that `NewRegistry` builds from the
store, loaded in any order, has the indexes of the running one, and
decides the same on every key at every time. The store is the one in
memory, or a database whose records are read back as they were written;
there the sequence may have any number of restarts in it. -/
theorem restart_changes_nothing :
    (∀ es : List RegistryEvent, (∀ e ∈ es, e.AllSaved) → ∀ o,
      (Registry.newRegistry o (Logged.run es).reg.store).Same (Logged.run es).reg) ∧
    ∀ {β : Type} (c : Codec Tenant β), c.RoundTrips →
      ∀ s : Backed (GoMap String β),
        Runs.Path (Backed.step (boltStore c)) (fun _ l => l.AllSaved)
          (Backed.start (boltStore c)) s →
        ∀ o, ∃ r, Registry.openStore (boltStore c) o s.disk = some r ∧ r.Same s.reg := by
  refine ⟨fun es hes o => ?_, fun c hc s hs o => ?_⟩
  · have hkept := Backed.kept_run hes
    obtain ⟨ts, hload, hnodup, hts⟩ := memStore_represents.load o hkept.disk
      fun id t ht => (Logged.run es).reg.keyed id t ht
    have hrange : (GoMap.range o (Logged.run es).reg.store).map Prod.snd = ts :=
      Option.some.inj hload
    rw [Registry.newRegistry_eq, hrange]
    exact Registry.same_ofTenants hkept.agree hnodup hts _
  · exact (Backed.kept_of_path (boltStore_represents hc) hs).reopen (boltStore_represents hc) o

/-- A database with the records of `encoding/json`: a tenant is
registered, uses up its quota, and is suspended; the process is started
again, and refuses its key for the quota. -/
theorem suspended_after_restart :
    let S := boltStore jsonCodec
    let call (c : Call) : Backed.Life := .call ⟨c, fun _ => true, .given⟩
    let s := [call (.createTenant ⟨"a", "k", 100, 0, 0, 0⟩), call (.addUsage "a" 100),
      call (.enforce 5)].foldl (Backed.step S) (Backed.start S)
    ∃ r, Registry.openStore S .reversed s.disk = some r ∧ r.Same s.reg ∧
      (s.reg.authorize "k" 6).code = .permissionDenied ∧
      (s.reg.authorize "k" 6).reason = .quota := by
  intro S call s
  have hpath : Runs.Path (Backed.step S) (fun _ l => l.AllSaved) (Backed.start S) s := by
    refine Runs.Path.of_foldl _ fun _ l hl => ?_
    simp only [List.mem_cons, List.not_mem_nil, or_false] at hl
    rcases hl with rfl | rfl | rfl <;> exact fun _ => rfl
  obtain ⟨r, hopen, hsame⟩ :=
    restart_changes_nothing.2 jsonCodec jsonCodec_roundTrips s hpath .reversed
  exact ⟨r, hopen, hsame, by decide +kernel, by decide +kernel⟩

end NodeAgent
