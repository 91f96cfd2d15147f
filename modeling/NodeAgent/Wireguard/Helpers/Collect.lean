import NodeAgent.Wireguard.Model.Diff
/-!
# The peers a list of users asks for

`collectDesiredPeers` goes through the users in some order and carries
along who has been seen with which network. Whether it fails does not
depend on that order: it does if two users of different emails are seen
with one network (`claimsOf`) or ask for one key. Otherwise it returns
what each user asks for on its own (`desiredOf`).
-/

namespace NodeAgent

namespace Wireguard

variable {N : GoNet.Lib} {cfg : Config} {users : List (Option User)} {o : Order String}

/-! ## The users -/

theorem email_of_lastByEmail {email : String} {u : User}
    (h : (lastByEmail users).lookup email = some u) : u.email = email := by
  revert email
  refine List.foldlRecOn (motive := fun m : GoMap String User =>
    ∀ {email}, m.lookup email = some u → u.email = email) users _ (fun h => by cases h) ?_
  intro m hm user _ email h
  cases user with
  | none => exact hm h
  | some v =>
    dsimp only at h
    split_ifs at h
    · exact hm h
    · rw [GoMap.lookup_insert_eq] at h
      split_ifs at h with hemail
      · rw [hemail, Option.some.inj h]
      · exact hm h

theorem mem_normalizeUsers {u : User} :
    u ∈ normalizeUsers o users ↔ (lastByEmail users).lookup u.email = some u := by
  simp only [normalizeUsers, List.mem_map, GoMap.mem_range]
  constructor
  · rintro ⟨p, hp, rfl⟩
    rw [email_of_lastByEmail hp]
    exact hp
  · exact fun h => ⟨(u.email, u), h, rfl⟩

/-- The emails a list names. -/
def Touched (users : List (Option User)) (email : String) : Prop :=
  (lastByEmail users).lookup email ≠ none

theorem mem_touched {email : String} :
    email ∈ (normalizeUsers o users).map User.email ↔ Touched users email := by
  simp only [List.mem_map, mem_normalizeUsers, Touched, ← Option.isSome_iff_ne_none,
    Option.isSome_iff_exists]
  constructor
  · rintro ⟨u, hu, rfl⟩
    exact ⟨u, hu⟩
  · rintro ⟨u, hu⟩
    have hemail := email_of_lastByEmail hu
    exact ⟨u, by rw [hemail]; exact hu, hemail⟩

/-! ## One user -/

variable (N cfg) in
/-- The networks of a user's IPs that are the interface's; `none` if one
of the IPs is invalid. -/
def netsOf : List String → Option (List GoNet.IPNet)
  | [] => some []
  | peerIp :: rest =>
    match N.parseCIDR peerIp with
    | none => none
    | some ipNet =>
      if !peerIPAllowedOnInterface ipNet (cfg.interfaceNetworks N) then netsOf rest
      else (netsOf rest).map (ipNet :: ·)

variable (N cfg) in
/-- **The peer a user asks for**, seen on its own. -/
def desiredOf (u : User) : Option DesiredPeer :=
  if !shouldIncludeUserInInterface u cfg.interfaceName then none
  else
    match parseKey u.getPublicKey, netsOf N cfg u.getPeerIps with
    | some parsedKey, some nets =>
      if nets = [] then none else some ⟨u.email, u.getPublicKey, parsedKey, nets⟩
    | _, _ => none

variable {d : DesiredPeer}

theorem desiredOf_fields {u : User} (h : desiredOf N cfg u = some d) :
    d.email = u.email ∧ d.publicKey = u.getPublicKey ∧ parseKey d.publicKey = some d.parsedKey ∧
      d.allowedIPNets ≠ [] := by
  unfold desiredOf at h
  split_ifs at h
  split at h
  · next parsedKey nets hkey _ =>
      split_ifs at h with hnets
      obtain rfl := Option.some.inj h
      exact ⟨rfl, rfl, hkey, hnets⟩
  · cases h

variable (N cfg) in
/-- The networks seen with a user, of its IPs: those of the interface, up
to an IP that is invalid. -/
def enteredOf : List String → List String
  | [] => []
  | peerIp :: rest =>
    match N.parseCIDR peerIp with
    | none => []
    | some ipNet =>
      if !peerIPAllowedOnInterface ipNet (cfg.interfaceNetworks N) then enteredOf rest
      else N.string ipNet :: enteredOf rest

variable (N cfg) in
/-- **The networks a user is seen with.** -/
def claimsOf (u : User) : List String :=
  if !shouldIncludeUserInInterface u cfg.interfaceName || (parseKey u.getPublicKey).isNone then []
  else enteredOf N cfg u.getPeerIps

variable {ips : List String}

theorem enteredOf_eq {nets : List GoNet.IPNet}
    (h : netsOf N cfg ips = some nets) : enteredOf N cfg ips = nets.map N.string := by
  induction ips generalizing nets with
  | nil =>
    obtain rfl := Option.some.inj h
    rfl
  | cons ip ips ih =>
    unfold netsOf at h
    unfold enteredOf
    cases hparse : N.parseCIDR ip with
    | none =>
      rw [hparse] at h
      cases h
    | some ipNet =>
      simp only [hparse] at h
      dsimp only
      split_ifs at h ⊢ with hallowed
      · exact ih h
      · obtain ⟨rest, hrest, rfl⟩ := Option.map_eq_some_iff.1 h
        rw [ih hrest, List.map_cons]

theorem claimsOf_eq {u : User} (h : desiredOf N cfg u = some d) :
    claimsOf N cfg u = d.allowedIPNets.map N.string := by
  unfold desiredOf at h
  unfold claimsOf
  split_ifs at h with hincl
  split at h
  · next parsedKey nets hkey hnets =>
      split_ifs at h
      obtain rfl := Option.some.inj h
      rw [if_neg (by simp [hincl, hkey]), enteredOf_eq hnets]
  · cases h

/-- Somebody else has been seen with one of the networks. -/
def Taken (seen : GoMap String String) (email : String) (xs : List String) : Prop :=
  ∃ x ∈ xs, ∃ e, seen.lookup x = some e ∧ e ≠ email

section IPs

variable {email : String} {seen : GoMap String String}

theorem collectIPs_of_taken (h : Taken seen email (enteredOf N cfg ips))
    (nets : List GoNet.IPNet) : ∃ err, collectIPs N cfg email ips (seen, nets) = .error err := by
  induction ips generalizing seen nets with
  | nil =>
    obtain ⟨x, hx, -⟩ := h
    cases hx
  | cons ip ips ih =>
    unfold enteredOf at h
    unfold collectIPs
    cases hparse : N.parseCIDR ip with
    | none =>
      rw [hparse] at h
      obtain ⟨x, hx, -⟩ := h
      cases hx
    | some ipNet =>
      simp only [hparse] at h
      dsimp only
      split_ifs at h ⊢ with hallowed
      · exact ih h nets
      · cases hseen : (seen.lookup (N.string ipNet)).filter (· ≠ email) with
        | some existing => exact ⟨_, rfl⟩
        | none =>
          -- it is not this network, and it is seen with the user from here on
          refine ih ?_ _
          obtain ⟨x, hx, e, he, hne⟩ := h
          have hother : x ≠ N.string ipNet := by
            rintro rfl
            rw [he, Option.filter_some, if_pos (by simpa using hne)] at hseen
            cases hseen
          refine ⟨x, (List.mem_cons.1 hx).resolve_left hother, e, ?_, hne⟩
          rw [GoMap.lookup_insert_eq, if_neg hother, he]

theorem collectIPs_of_free (h : ¬ Taken seen email (enteredOf N cfg ips))
    (nets : List GoNet.IPNet) :
    ∃ seen', collectIPs N cfg email ips (seen, nets) =
        .ok (seen', (netsOf N cfg ips).map (nets ++ ·)) ∧
      ∀ x, seen'.lookup x = if x ∈ enteredOf N cfg ips then some email else seen.lookup x := by
  induction ips generalizing seen nets with
  | nil => exact ⟨seen, by simp [collectIPs, netsOf], by simp [enteredOf]⟩
  | cons ip ips ih =>
    unfold enteredOf at h ⊢
    unfold collectIPs netsOf
    cases hparse : N.parseCIDR ip with
    | none => exact ⟨seen, rfl, by simp⟩
    | some ipNet =>
      simp only [hparse] at h
      dsimp only
      split_ifs at h ⊢ with hallowed
      · exact ih h nets
      · have hseen : (seen.lookup (N.string ipNet)).filter (· ≠ email) = none := by
          rw [Option.filter_eq_none_iff]
          intro e he hne
          exact h ⟨_, List.mem_cons_self .., e, he, by simpa using hne⟩
        rw [hseen]
        have hrest : ¬ Taken (seen.insert (N.string ipNet) email) email
            (enteredOf N cfg ips) := by
          rintro ⟨x, hx, e, he, hne⟩
          rw [GoMap.lookup_insert_eq] at he
          split_ifs at he with hxe
          · exact hne (Option.some.inj he).symm
          · exact h ⟨x, List.mem_cons_of_mem _ hx, e, he, hne⟩
        obtain ⟨seen', hok, hlookup⟩ := ih hrest (nets ++ [ipNet])
        refine ⟨seen', ?_, fun x => ?_⟩
        · rw [hok, Option.map_map]
          simp [Function.comp_def]
        · rw [hlookup, GoMap.lookup_insert_eq]
          by_cases hx : x ∈ enteredOf N cfg ips
          · simp [hx]
          · simp [hx]

end IPs

/-- The user asks for a key somebody else has asked for. -/
def Shares (N : GoNet.Lib) (cfg : Config) (acc : Collected) (u : User) : Prop :=
  ∃ d d', desiredOf N cfg u = some d ∧ acc.desiredPeers.lookup d.publicKey = some d' ∧
    d'.email ≠ d.email

section One

variable {u : User} {acc : Collected}

theorem collectOne_of_taken (h : Taken acc.seenIPs u.email (claimsOf N cfg u)) :
    ∃ err, collectOne N cfg acc u = .error err := by
  unfold claimsOf at h
  unfold collectOne
  split_ifs at h with hclaims
  · obtain ⟨x, hx, -⟩ := h
    cases hx
  · rw [Bool.or_eq_true, not_or, Option.isNone_iff_eq_none] at hclaims
    obtain ⟨hincl, hkey⟩ := hclaims
    obtain ⟨parsedKey, hkey⟩ := Option.ne_none_iff_exists'.1 hkey
    obtain ⟨err, herr⟩ := collectIPs_of_taken h []
    rw [if_neg hincl]
    simp only [hkey, herr]
    exact ⟨err, rfl⟩

/-- The user has been entered: its networks, and what it asks for. -/
structure Extends (N : GoNet.Lib) (cfg : Config) (u : User) (acc acc' : Collected) : Prop where
  seen : ∀ x, acc'.seenIPs.lookup x =
    if x ∈ claimsOf N cfg u then some u.email else acc.seenIPs.lookup x
  desired : ∀ k, acc'.desiredPeers.lookup k =
    ((desiredOf N cfg u).filter (·.publicKey = k)).or (acc.desiredPeers.lookup k)

theorem not_shares_and_extends (acc' : Collected) (hnone : desiredOf N cfg u = none)
    (hok : collectOne N cfg acc u = .ok acc') (hsame : acc'.desiredPeers = acc.desiredPeers)
    (hseen : ∀ x, acc'.seenIPs.lookup x =
      if x ∈ claimsOf N cfg u then some u.email else acc.seenIPs.lookup x) :
    ¬ Shares N cfg acc u ∧
      ∃ acc', collectOne N cfg acc u = .ok acc' ∧ Extends N cfg u acc acc' := by
  refine ⟨?_, acc', hok, hseen, fun k => ?_⟩
  · rintro ⟨d, -, hd, -⟩
    rw [hnone] at hd
    cases hd
  · rw [hnone, hsame]
    rfl

theorem collectOne_of_nets {seen' : GoMap String String} {nets : List GoNet.IPNet} {parsedKey : Key}
    (hincl : ¬ (!shouldIncludeUserInInterface u cfg.interfaceName) = true)
    (hkey : parseKey u.getPublicKey = some parsedKey)
    (hnets : netsOf N cfg u.getPeerIps = some nets) (hne : nets ≠ [])
    (hok : collectIPs N cfg u.email u.getPeerIps (acc.seenIPs, []) = .ok (seen', some nets))
    (hseen : ∀ x, seen'.lookup x =
      if x ∈ claimsOf N cfg u then some u.email else acc.seenIPs.lookup x) :
    (Shares N cfg acc u ∧ ∃ err, collectOne N cfg acc u = .error err) ∨
      ¬ Shares N cfg acc u ∧
        ∃ acc', collectOne N cfg acc u = .ok acc' ∧ Extends N cfg u acc acc' := by
  have hd : desiredOf N cfg u = some ⟨u.email, u.getPublicKey, parsedKey, nets⟩ := by
    simp only [desiredOf, if_neg hincl, hkey, hnets, if_neg hne]
  have hlen : ¬ nets.length = 0 := fun h => hne (List.length_eq_zero_iff.1 h)
  cases hother : (acc.desiredPeers.lookup u.getPublicKey).filter (·.email ≠ u.email) with
  | some existing =>
    obtain ⟨hin, hemail⟩ := Option.filter_eq_some_iff.1 hother
    refine Or.inl ⟨⟨_, existing, hd, hin, by simpa using hemail⟩, ?_⟩
    simp only [collectOne, if_neg hincl, hkey, hok, if_neg hlen, hother]
    exact ⟨_, rfl⟩
  | none =>
    refine Or.inr ⟨?_, ⟨acc.desiredPeers.insert u.getPublicKey
      ⟨u.email, u.getPublicKey, parsedKey, nets⟩, seen'⟩, ?_, hseen, fun k => ?_⟩
    · rintro ⟨d, d', hd', hin, hemail⟩
      rw [hd] at hd'
      obtain rfl := Option.some.inj hd'
      exact Option.filter_eq_none_iff.1 hother d' hin (by simpa using hemail)
    · simp only [collectOne, if_neg hincl, hkey, hok, if_neg hlen, hother]
    · rw [GoMap.lookup_insert_eq, hd, Option.filter_some]
      by_cases hk : k = u.getPublicKey
      · simp [hk]
      · simp [hk, Ne.symm hk]

theorem collectOne_of_free (h : ¬ Taken acc.seenIPs u.email (claimsOf N cfg u)) :
    (Shares N cfg acc u ∧ ∃ err, collectOne N cfg acc u = .error err) ∨
      ¬ Shares N cfg acc u ∧
        ∃ acc', collectOne N cfg acc u = .ok acc' ∧ Extends N cfg u acc acc' := by
  by_cases hincl : (!shouldIncludeUserInInterface u cfg.interfaceName) = true
  · refine Or.inr (not_shares_and_extends acc ?_ ?_ rfl fun x => ?_)
    · rw [desiredOf, if_pos hincl]
    · rw [collectOne, if_pos hincl]
    · simp [claimsOf, hincl]
  cases hkey : parseKey u.getPublicKey with
  | none =>
    refine Or.inr (not_shares_and_extends acc ?_ ?_ rfl fun x => ?_)
    · rw [desiredOf, if_neg hincl, hkey]
    · rw [collectOne, if_neg hincl, hkey]
    · simp [claimsOf, hkey]
  | some parsedKey =>
    have hclaims : claimsOf N cfg u = enteredOf N cfg u.getPeerIps := by
      rw [claimsOf, if_neg (by simpa [hkey] using hincl)]
    rw [hclaims] at h
    obtain ⟨seen', hok, hseen⟩ := collectIPs_of_free h []
    rw [← hclaims] at hseen
    cases hnets : netsOf N cfg u.getPeerIps with
    | none =>
      -- an invalid IP
      refine Or.inr (not_shares_and_extends { acc with seenIPs := seen' } ?_ ?_ rfl hseen)
      · simp only [desiredOf, if_neg hincl, hkey, hnets]
      · simp only [collectOne, if_neg hincl, hkey, hok, hnets, Option.map_none]
    | some nets =>
      rw [hnets, Option.map_some, List.nil_append] at hok
      by_cases hempty : nets = []
      · -- none of the IPs is the interface's
        refine Or.inr (not_shares_and_extends { acc with seenIPs := seen' } ?_ ?_ rfl hseen)
        · simp only [desiredOf, if_neg hincl, hkey, hnets, if_pos hempty]
        · simp [collectOne, hincl, hkey, hok, hempty]
      · exact collectOne_of_nets hincl hkey hnets hempty hok hseen

end One

/-! ## The list -/

/-- **What a list of users asks for**: the peer of the last user of an
email. -/
def Asks (N : GoNet.Lib) (cfg : Config) (users : List (Option User)) (d : DesiredPeer) : Prop :=
  ∃ u, (lastByEmail users).lookup u.email = some u ∧ desiredOf N cfg u = some d

theorem Asks.touched (h : Asks N cfg users d) : Touched users d.email := by
  obtain ⟨u, hu, hd⟩ := h
  rw [Touched, (desiredOf_fields hd).1, hu]
  simp

theorem Asks.unique {d d' : DesiredPeer} (h : Asks N cfg users d) (h' : Asks N cfg users d')
    (hemail : d.email = d'.email) : d = d' := by
  obtain ⟨u, hu, hd⟩ := h
  obtain ⟨u', hu', hd'⟩ := h'
  rw [(desiredOf_fields hd).1, (desiredOf_fields hd').1] at hemail
  rw [hemail, hu'] at hu
  rw [Option.some.inj hu, hd] at hd'
  exact Option.some.inj hd'

theorem Asks.parseKey (h : Asks N cfg users d) :
    Wireguard.parseKey d.publicKey = some d.parsedKey := by
  obtain ⟨u, -, hd⟩ := h
  exact (desiredOf_fields hd).2.2.1

theorem Asks.nets_ne_nil (h : Asks N cfg users d) : d.allowedIPNets ≠ [] := by
  obtain ⟨u, -, hd⟩ := h
  exact (desiredOf_fields hd).2.2.2

/-- **Two users that cannot both be there**: of different emails, and seen
with one network or asking for one key. -/
def Clash (N : GoNet.Lib) (cfg : Config) (u v : User) : Prop :=
  u.email ≠ v.email ∧ ((∃ x ∈ claimsOf N cfg u, x ∈ claimsOf N cfg v) ∨
    ∃ d d', desiredOf N cfg u = some d ∧ desiredOf N cfg v = some d' ∧ d.publicKey = d'.publicKey)

theorem Clash.symm {u v : User} (h : Clash N cfg u v) : Clash N cfg v u := by
  obtain ⟨hne, ⟨x, hx, hx'⟩ | ⟨d, d', hd, hd', hkey⟩⟩ := h
  · exact ⟨hne.symm, Or.inl ⟨x, hx', hx⟩⟩
  · exact ⟨hne.symm, Or.inr ⟨d', d, hd', hd, hkey.symm⟩⟩

/-- Two users of a list cannot both be there. -/
def Conflict (N : GoNet.Lib) (cfg : Config) (users : List User) : Prop :=
  ∃ u ∈ users, ∃ v ∈ users, Clash N cfg u v

theorem Conflict.mono {l l' : List User} (h : Conflict N cfg l) (hsub : ∀ u ∈ l, u ∈ l') :
    Conflict N cfg l' := by
  obtain ⟨u, hu, v, hv, hclash⟩ := h
  exact ⟨u, hsub u hu, v, hsub v hv, hclash⟩

theorem conflict_concat_iff {l : List User} {u : User} :
    Conflict N cfg (l ++ [u]) ↔ Conflict N cfg l ∨ ∃ v ∈ l, Clash N cfg v u := by
  constructor
  · rintro ⟨v, hv, w, hw, hclash⟩
    rcases List.mem_append.1 hv with hv | hv
    · rcases List.mem_append.1 hw with hw | hw
      · exact Or.inl ⟨v, hv, w, hw, hclash⟩
      · rw [List.mem_singleton.1 hw] at hclash
        exact Or.inr ⟨v, hv, hclash⟩
    · rw [List.mem_singleton.1 hv] at hclash
      rcases List.mem_append.1 hw with hw | hw
      · exact Or.inr ⟨w, hw, hclash.symm⟩
      · rw [List.mem_singleton.1 hw] at hclash
        exact absurd rfl hclash.1
  · rintro (h | ⟨v, hv, hclash⟩)
    · exact h.mono fun w hw => List.mem_append_left _ hw
    · exact ⟨v, List.mem_append_left _ hv, u, by simp, hclash⟩

variable (N cfg) in
/-- The peer under a key: that of the last user who asks for the key. -/
def lastFor (users : List User) (k : String) : Option DesiredPeer :=
  ((users.filterMap (desiredOf N cfg)).filter (·.publicKey = k)).getLast?

theorem lastFor_concat (l : List User) (u : User) (k : String) :
    lastFor N cfg (l ++ [u]) k =
      ((desiredOf N cfg u).filter (·.publicKey = k)).or (lastFor N cfg l k) := by
  simp only [lastFor, List.filterMap_append, List.filter_append, List.getLast?_append,
    List.filterMap_cons, List.filterMap_nil]
  cases desiredOf N cfg u with
  | none => simp
  | some d =>
    by_cases hd : d.publicKey = k
    · simp [hd, Option.filter_some]
    · simp [hd, Option.filter_some]

theorem mem_of_lastFor {l : List User} {k : String}
    (h : lastFor N cfg l k = some d) : (∃ u ∈ l, desiredOf N cfg u = some d) ∧ d.publicKey = k := by
  have hmem := List.mem_of_getLast? h
  simp only [List.mem_filter, List.mem_filterMap, decide_eq_true_eq] at hmem
  exact hmem

theorem lastFor_isSome {l : List User} {u : User} (hu : u ∈ l)
    (hd : desiredOf N cfg u = some d) : ∃ d', lastFor N cfg l d.publicKey = some d' := by
  have hmem : d ∈ (l.filterMap (desiredOf N cfg)).filter (·.publicKey = d.publicKey) := by
    simp only [List.mem_filter, List.mem_filterMap, decide_true, and_true]
    exact ⟨u, hu, hd⟩
  exact ⟨_, List.getLast?_eq_some_getLast (List.ne_nil_of_mem hmem)⟩

/-- **What the loop over the users has gathered**, after those of a list. -/
structure Gathered (N : GoNet.Lib) (cfg : Config) (done : List User) (acc : Collected) : Prop where
  desired : ∀ k, acc.desiredPeers.lookup k = lastFor N cfg done k
  seen : ∀ x e, acc.seenIPs.lookup x = some e → ∃ u ∈ done, u.email = e ∧ x ∈ claimsOf N cfg u
  entered : ∀ u ∈ done, ∀ x ∈ claimsOf N cfg u, acc.seenIPs.lookup x = some u.email

variable {done : List User} {acc : Collected} {u : User}

theorem Gathered.refuses (h : Gathered N cfg done acc) (hno : ¬ Conflict N cfg done)
    (hclash : ∃ v ∈ done, Clash N cfg v u) : ∃ err, collectOne N cfg acc u = .error err := by
  obtain ⟨v, hv, hne, hshare⟩ := hclash
  by_cases htaken : Taken acc.seenIPs u.email (claimsOf N cfg u)
  · exact collectOne_of_taken htaken
  · rcases hshare with ⟨x, hx, hx'⟩ | ⟨d, d', hd, hd', hkey⟩
    · exact absurd ⟨x, hx', v.email, h.entered v hv x hx, hne⟩ htaken
    · rcases collectOne_of_free htaken with ⟨-, herr⟩ | ⟨hfree, -⟩
      · exact herr
      · -- the key is there, and with another email, or two of them clash
        obtain ⟨d₁, hd₁⟩ := lastFor_isSome hv hd
        obtain ⟨⟨w, hw, hwd⟩, hwkey⟩ := mem_of_lastFor hd₁
        refine absurd ⟨d', d₁, hd', by rw [h.desired, ← hkey, hd₁], fun hemail => hno ?_⟩ hfree
        refine ⟨v, hv, w, hw, fun hvw => hne ?_, Or.inr ⟨d, d₁, hd, hwd, hwkey.symm⟩⟩
        rw [hvw, ← (desiredOf_fields hwd).1, hemail, (desiredOf_fields hd').1]

theorem Gathered.concat (h : Gathered N cfg done acc)
    (hno : ¬ ∃ v ∈ done, Clash N cfg v u) :
    ∃ acc', collectOne N cfg acc u = .ok acc' ∧ Gathered N cfg (done ++ [u]) acc' := by
  have hfree : ¬ Taken acc.seenIPs u.email (claimsOf N cfg u) := by
    rintro ⟨x, hx, e, he, hne⟩
    obtain ⟨v, hv, rfl, hvx⟩ := h.seen x e he
    exact hno ⟨v, hv, hne, Or.inl ⟨x, hvx, hx⟩⟩
  rcases collectOne_of_free hfree with ⟨⟨d, d', hd, hd', hne⟩, -⟩ | ⟨-, acc', hok, hext⟩
  · rw [h.desired] at hd'
    obtain ⟨⟨v, hv, hvd⟩, hkey⟩ := mem_of_lastFor hd'
    rw [(desiredOf_fields hvd).1, (desiredOf_fields hd).1] at hne
    exact absurd ⟨v, hv, hne, Or.inr ⟨d', d, hvd, hd, hkey⟩⟩ hno
  · refine ⟨acc', hok, fun k => ?_, fun x e he => ?_, fun v hv x hx => ?_⟩
    · rw [hext.desired, h.desired, lastFor_concat]
    · rw [hext.seen] at he
      split_ifs at he with hx
      · exact ⟨u, by simp, Option.some.inj he, hx⟩
      · obtain ⟨v, hv, hve, hvx⟩ := h.seen x e he
        exact ⟨v, List.mem_append_left _ hv, hve, hvx⟩
    · rw [hext.seen]
      rcases List.mem_append.1 hv with hv | hv
      · split_ifs with hux
        · by_contra hne
          exact hno ⟨v, hv, fun heq => hne (congrArg some heq.symm), Or.inl ⟨x, hx, hux⟩⟩
        · exact h.entered v hv x hx
      · rw [List.mem_singleton.1 hv] at hx ⊢
        rw [if_pos hx]

/-- **The whole loop** fails at a conflict, and at nothing else. -/
theorem foldlM_collectOne (N : GoNet.Lib) (cfg : Config) (l : List User) :
    (Conflict N cfg l ∧ ∃ err, l.foldlM (collectOne N cfg) ⟨∅, ∅⟩ = .error err) ∨
      ¬ Conflict N cfg l ∧
        ∃ acc, l.foldlM (collectOne N cfg) ⟨∅, ∅⟩ = .ok acc ∧ Gathered N cfg l acc := by
  induction l using List.reverseRecOn with
  | nil =>
    refine Or.inr ⟨?_, ⟨∅, ∅⟩, rfl, fun k => by simp [lastFor], fun x e he => ?_, by simp⟩
    · rintro ⟨u, hu, -⟩
      cases hu
    · cases he
  | append_singleton l u ih =>
    rw [conflict_concat_iff, List.foldlM_append]
    rcases ih with ⟨hconflict, err, herr⟩ | ⟨hno, acc, hacc, hall⟩
    · rw [herr]
      exact Or.inl ⟨Or.inl hconflict, err, rfl⟩
    · have hlast : (Except.ok acc >>= fun acc => [u].foldlM (collectOne N cfg) acc) =
          collectOne N cfg acc u := by
        simp only [List.foldlM_cons, List.foldlM_nil, bind_pure]
        rfl
      rw [hacc, hlast]
      by_cases hclash : ∃ v ∈ l, Clash N cfg v u
      · obtain ⟨err, herr⟩ := hall.refuses hno hclash
        exact Or.inl ⟨Or.inr hclash, err, herr⟩
      · obtain ⟨acc', hok, hall'⟩ := hall.concat hclash
        exact Or.inr ⟨not_or.2 ⟨hno, hclash⟩, acc', hok, hall'⟩

/-- **When `collectDesiredPeers` fails, and what it returns otherwise.** -/
theorem collectDesiredPeers_cases (N : GoNet.Lib) (cfg : Config) (l : List User) :
    (Conflict N cfg l ∧ ∃ err, collectDesiredPeers N cfg l = .error err) ∨
      ¬ Conflict N cfg l ∧ ∃ D, collectDesiredPeers N cfg l = .ok D ∧
        ∀ k, D.lookup k = lastFor N cfg l k := by
  unfold collectDesiredPeers
  rcases foldlM_collectOne N cfg l with
    ⟨hconflict, err, herr⟩ | ⟨hno, acc, hacc, hall⟩
  · exact Or.inl ⟨hconflict, err, by rw [herr]; rfl⟩
  · exact Or.inr ⟨hno, acc.desiredPeers, by rw [hacc]; rfl, hall.desired⟩

/-- **What `collectDesiredPeers` returns** of normalized users: what they
ask for, under its keys, and no two of them ask for one key or one
network. -/
theorem collectDesiredPeers_ok {D : GoMap String DesiredPeer}
    (h : collectDesiredPeers N cfg (normalizeUsers o users) = .ok D) :
    (∀ k d, D.lookup k = some d ↔ Asks N cfg users d ∧ d.publicKey = k) ∧
      ∀ d d', Asks N cfg users d → Asks N cfg users d' → d.email ≠ d'.email →
        d.publicKey ≠ d'.publicKey ∧
          ∀ n ∈ d.allowedIPNets, ∀ n' ∈ d'.allowedIPNets, N.string n ≠ N.string n' := by
  rcases collectDesiredPeers_cases N cfg (normalizeUsers o users) with
    ⟨-, err, herr⟩ | ⟨hno, D', hD', hlast⟩
  · rw [herr] at h
    cases h
  rw [hD'] at h
  obtain rfl := Except.ok.inj h
  -- those who ask for something clash if they are two and want the same
  have hclash : ∀ d d', Asks N cfg users d → Asks N cfg users d' → d.email ≠ d'.email →
      d.publicKey ≠ d'.publicKey ∧
        ∀ n ∈ d.allowedIPNets, ∀ n' ∈ d'.allowedIPNets, N.string n ≠ N.string n' := by
    rintro d d' ⟨u, hu, hd⟩ ⟨u', hu', hd'⟩ hne
    have hne' : u.email ≠ u'.email := by
      rw [← (desiredOf_fields hd).1, ← (desiredOf_fields hd').1]
      exact hne
    refine ⟨fun hkey => hno ?_, fun n hn n' hn' heq => hno ?_⟩
    · exact ⟨u, mem_normalizeUsers.2 hu, u', mem_normalizeUsers.2 hu', hne',
        Or.inr ⟨d, d', hd, hd', hkey⟩⟩
    · refine ⟨u, mem_normalizeUsers.2 hu, u', mem_normalizeUsers.2 hu', hne',
        Or.inl ⟨N.string n, ?_, ?_⟩⟩
      · rw [claimsOf_eq hd]
        exact List.mem_map_of_mem hn
      · rw [claimsOf_eq hd', heq]
        exact List.mem_map_of_mem hn'
  refine ⟨fun k d => ?_, hclash⟩
  rw [hlast]
  constructor
  · intro hd
    obtain ⟨⟨u, hu, hud⟩, hkey⟩ := mem_of_lastFor hd
    exact ⟨⟨u, mem_normalizeUsers.1 hu, hud⟩, hkey⟩
  · rintro ⟨⟨u, hu, hud⟩, rfl⟩
    obtain ⟨d', hd'⟩ := lastFor_isSome (mem_normalizeUsers.2 hu : u ∈ normalizeUsers o users) hud
    obtain ⟨⟨u', hu', hud'⟩, hkey⟩ := mem_of_lastFor hd'
    have hask : Asks N cfg users d := ⟨u, hu, hud⟩
    have hask' : Asks N cfg users d' := ⟨u', mem_normalizeUsers.1 hu', hud'⟩
    have hemail : d.email = d'.email := by
      by_contra hne
      exact (hclash d d' hask hask' hne).1 hkey.symm
    rw [hd', hask.unique hask' hemail]

end Wireguard

end NodeAgent
