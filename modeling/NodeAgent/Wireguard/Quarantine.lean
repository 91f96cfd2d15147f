import NodeAgent.Wireguard.Reconcile
/-!
# Whether a quarantined user can be felt

A user with an invalid key or an invalid IP gets no peer. With an invalid
IP it may still be felt: the IPs in front of that one have been entered
as seen with the user, and nobody else can have them any more.
-/

namespace NodeAgent

namespace Wireguard

variable {N : GoNet.Lib} {cfg : Config}

/-- **`collectDesiredPeers` puts the user in quarantine**: it belongs to the
interface, and its key or one of its IPs cannot be parsed. -/
def Quarantined (N : GoNet.Lib) (cfg : Config) (u : User) : Prop :=
  shouldIncludeUserInInterface u cfg.interfaceName = true ∧
    (parseKey u.getPublicKey = none ∨ ∃ ip ∈ u.getPeerIps, N.parseCIDR ip = none)

/-- **Two calls have the same result**: both fail, or they return the same
peers. -/
def SameDesired : Except Err (GoMap String DesiredPeer) →
    Except Err (GoMap String DesiredPeer) → Prop
  | .ok D, .ok D' => ∀ k, D.lookup k = D'.lookup k
  | .error _, .error _ => True
  | _, _ => False

theorem SameDesired.isOk_eq {r r' : Except Err (GoMap String DesiredPeer)}
    (h : SameDesired r r') : r.isOk = r'.isOk := by
  cases r with
  | ok D =>
    cases r' with
    | ok D' => rfl
    | error err => exact h.elim
  | error err =>
    cases r' with
    | ok D' => exact h.elim
    | error err' => rfl

theorem netsOf_eq_none {ips : List String} (h : ∃ ip ∈ ips, N.parseCIDR ip = none) :
    netsOf N cfg ips = none := by
  induction ips with
  | nil =>
    obtain ⟨ip, hip, -⟩ := h
    cases hip
  | cons ip ips ih =>
    unfold netsOf
    cases hparse : N.parseCIDR ip with
    | none => rfl
    | some ipNet =>
      have hrest : netsOf N cfg ips = none := by
        obtain ⟨ip', hip', hbad⟩ := h
        rcases List.mem_cons.1 hip' with rfl | hip'
        · rw [hparse] at hbad
          cases hbad
        · exact ih ⟨ip', hip', hbad⟩
      dsimp only
      rw [hrest, Option.map_none, ite_self]

theorem Quarantined.desiredOf_eq_none {u : User} (h : Quarantined N cfg u) :
    desiredOf N cfg u = none := by
  rw [desiredOf, if_neg (by simp [h.1])]
  rcases h.2 with hkey | hips
  · rw [hkey]
  · rw [netsOf_eq_none hips]
    split
    · next hnone => cases hnone
    · rfl

/-- Somebody else of a list is seen with a network of the user. -/
def Crosses (N : GoNet.Lib) (cfg : Config) (u : User) (others : List User) : Prop :=
  ∃ v ∈ others, v.email ≠ u.email ∧ ∃ x ∈ claimsOf N cfg v, x ∈ claimsOf N cfg u

theorem clash_iff_of_none {u v : User} (h : desiredOf N cfg u = none) :
    Clash N cfg v u ↔ v.email ≠ u.email ∧ ∃ x ∈ claimsOf N cfg v, x ∈ claimsOf N cfg u := by
  refine and_congr_right fun _ => ⟨?_, Or.inl⟩
  rintro (hx | ⟨d, d', -, hd', -⟩)
  · exact hx
  · rw [h] at hd'
    cases hd'

theorem conflict_insert_iff {u : User} {A B : List User} (h : desiredOf N cfg u = none) :
    Conflict N cfg (A ++ u :: B) ↔ Conflict N cfg (A ++ B) ∨ Crosses N cfg u (A ++ B) := by
  -- the place of the user in the list is of no account
  have hperm : ∀ v, v ∈ A ++ u :: B ↔ v ∈ (A ++ B) ++ [u] := by
    intro v
    simp only [List.mem_append, List.mem_cons, List.not_mem_nil, or_false]
    tauto
  have hconflict : Conflict N cfg (A ++ u :: B) ↔ Conflict N cfg ((A ++ B) ++ [u]) :=
    ⟨fun hc => hc.mono fun v hv => (hperm v).1 hv, fun hc => hc.mono fun v hv => (hperm v).2 hv⟩
  simp only [hconflict, conflict_concat_iff, Crosses, clash_iff_of_none h]

theorem lastFor_insert {u : User} {A B : List User} (h : desiredOf N cfg u = none) (k : String) :
    lastFor N cfg (A ++ u :: B) k = lastFor N cfg (A ++ B) k := by
  simp only [lastFor, List.filterMap_append, List.filterMap_cons, h]

/-- **When a quarantined user is not felt.** With it and without it
`collectDesiredPeers` has the same result if and only if two others of
different emails share a network or a key anyway, or nobody of another
email is seen with one of the networks that come before the user's first
invalid IP. -/
theorem quarantine_iff (N : GoNet.Lib) (cfg : Config) (A B : List User) (u : User)
    (hq : Quarantined N cfg u) :
    SameDesired (collectDesiredPeers N cfg (A ++ u :: B)) (collectDesiredPeers N cfg (A ++ B)) ↔
      Conflict N cfg (A ++ B) ∨ ¬ Crosses N cfg u (A ++ B) := by
  have hnone := hq.desiredOf_eq_none
  have hwith := collectDesiredPeers_cases N cfg (A ++ u :: B)
  rw [conflict_insert_iff hnone] at hwith
  rcases collectDesiredPeers_cases N cfg (A ++ B) with
    ⟨hconflict, err, herr⟩ | ⟨hno, D, hD, hlookup⟩
  · rcases hwith with ⟨-, err', herr'⟩ | ⟨hnot, -⟩
    · rw [herr, herr']
      exact iff_of_true trivial (Or.inl hconflict)
    · exact absurd (Or.inl hconflict) hnot
  · rcases hwith with ⟨hcrosses, err', herr'⟩ | ⟨hnot, D', hD', hlookup'⟩
    · rw [hD, herr']
      refine iff_of_false id ?_
      rw [not_or, not_not]
      exact ⟨hno, hcrosses.resolve_left hno⟩
    · rw [hD, hD']
      refine iff_of_true (fun k => ?_) (Or.inr fun hcrosses => hnot (Or.inr hcrosses))
      rw [hlookup, hlookup', lastFor_insert hnone]

/-! ## Lists -/

namespace Demo

def malformed : User :=
  ⟨"b", some ⟨(key 2).string, ["10.0.0.3/32", "10.0.0.300/32"]⟩, ["wg0"]⟩

def neighbour (ip : String) : User :=
  ⟨"a", some ⟨(key 1).string, [ip]⟩, ["wg0"]⟩

theorem quarantined_malformed : Quarantined GoNet.std config malformed :=
  ⟨by decide, Or.inr ⟨"10.0.0.300/32", by decide, by decide⟩⟩

end Demo

/-- Somebody with another address does not feel it. -/
theorem quarantine_iff_apart :
    Quarantined GoNet.std Demo.config Demo.malformed ∧
      SameDesired
        (collectDesiredPeers GoNet.std Demo.config [Demo.neighbour "10.0.0.2/32", Demo.malformed])
        (collectDesiredPeers GoNet.std Demo.config [Demo.neighbour "10.0.0.2/32"]) := by
  refine ⟨Demo.quarantined_malformed, (quarantine_iff GoNet.std Demo.config
    [Demo.neighbour "10.0.0.2/32"] [] Demo.malformed Demo.quarantined_malformed).2 (Or.inr ?_)⟩
  rintro ⟨v, hv, -, x, hx, hx'⟩
  rw [List.mem_singleton.1 hv] at hx
  revert x
  decide +kernel

/-- **Somebody with the address does**: alone the list is accepted, with
the quarantined user it is refused. -/
theorem quarantine_felt :
    Quarantined GoNet.std Demo.config Demo.malformed ∧
      ¬ SameDesired
        (collectDesiredPeers GoNet.std Demo.config [Demo.malformed, Demo.neighbour "10.0.0.3/32"])
        (collectDesiredPeers GoNet.std Demo.config [Demo.neighbour "10.0.0.3/32"]) := by
  refine ⟨Demo.quarantined_malformed, fun hsame => ?_⟩
  have hwith : (collectDesiredPeers GoNet.std Demo.config
      [Demo.malformed, Demo.neighbour "10.0.0.3/32"]).isOk = false := by decide +kernel
  have hwithout : (collectDesiredPeers GoNet.std Demo.config
      [Demo.neighbour "10.0.0.3/32"]).isOk = true := by decide +kernel
  have heq := hsame.isOk_eq
  rw [hwith, hwithout] at heq
  cases heq

end Wireguard

end NodeAgent
