import NodeAgent.Xray.Model.Stats
/-!
# Which counters are taken for the user they count

A counter's name is split at `>>>`, which an email may hold, or complete
together with the separator after it. `Parseable` says that it does not,
and is exactly what it takes for the name to be read back.
-/

namespace NodeAgent

open GoStrings

/-- **An email a counter's name can carry**: no `>>>` inside, and no `>`
at the end to run into the separator. -/
def Parseable (email : String) : Prop :=
  contains email ">>>" = false ∧ hasSuffix email ">" = false

instance (email : String) : Decidable (Parseable email) :=
  inferInstanceAs (Decidable (_ ∧ _))

theorem parseable_iff_clean {email : String} :
    Parseable email ↔ Clean ">>>".toList email.toList := by
  have hsep : ">>>".toList = List.replicate (2 + 1) '>' := by decide
  have hend : ">".toList = ['>'] := by decide
  rw [hsep, clean_replicate_iff, Parseable, ← Bool.not_eq_true, ← Bool.not_eq_true,
    contains_iff, hasSuffix_iff, hsep, hend]

theorem toList_counterName (email : String) (d : Direction) :
    (counterName email d).toList = "user".toList ++ (">>>".toList ++ (email.toList ++
      (">>>".toList ++ ("traffic".toList ++ (">>>".toList ++ d.name.toList))))) := by
  have huser : "user>>>".toList = "user".toList ++ ">>>".toList := by decide
  have htraffic : ">>>traffic>>>".toList = ">>>".toList ++ ("traffic".toList ++ ">>>".toList) := by
    decide
  simp only [counterName, String.toList_append, huser, htraffic, List.append_assoc]

theorem split_traffic (d : Direction) :
    splitList ">>>".toList ("traffic".toList ++ (">>>".toList ++ d.name.toList)) =
      ["traffic".toList, d.name.toList] := by
  cases d <;> decide

theorem splitList_counterName (email : String) (d : Direction) :
    splitList ">>>".toList (counterName email d).toList =
      "user".toList :: splitList ">>>".toList (email.toList ++
        (">>>".toList ++ ("traffic".toList ++ (">>>".toList ++ d.name.toList)))) := by
  have huser : Clean ">>>".toList "user".toList := by
    rw [← parseable_iff_clean]
    decide
  rw [toList_counterName, splitList_clean (by decide) huser]

/-- **A parseable email is read back from its counters.** -/
theorem parseStatName_counterName {email : String} (hp : Parseable email) (hne : email ≠ "")
    (d : Direction) :
    parseStatName (counterName email d) = some (email, "traffic", d.name) := by
  have hsplit : split (counterName email d) ">>>" = ["user", email, "traffic", d.name] := by
    rw [split, splitList_counterName, splitList_clean (by decide) (parseable_iff_clean.1 hp),
      split_traffic]
    simp [String.ofList_toList]
  have hd : d.name ≠ "" := by cases d <;> decide
  simp [parseStatName, hsplit, hne, hd]

/-- **And no other is.** -/
theorem parseable_of_parseStatName {email link type : String} {d : Direction}
    (h : parseStatName (counterName email d) = some (email, link, type)) : Parseable email := by
  rw [parseable_iff_clean, ← splitList_eq_cons_iff (by decide)
    (l := "traffic".toList ++ (">>>".toList ++ d.name.toList))]
  unfold parseStatName at h
  rw [split, splitList_counterName, List.map_cons] at h
  split at h
  · rename_i a name rest₁ rest₂ rest heq
    split_ifs at h
    obtain ⟨rfl, -, -⟩ : name = email ∧ rest₁ = link ∧ rest₂ = type := by simpa using h
    obtain ⟨-, hrest⟩ := List.cons.inj heq
    -- the second piece is the email, so the split did cut after it
    generalize splitList ">>>".toList _ = pieces at hrest ⊢
    cases pieces with
    | nil => cases hrest
    | cons piece pieces =>
      obtain ⟨hname, -⟩ := List.cons.inj hrest
      refine ⟨pieces, ?_⟩
      rw [← hname, String.toList_ofList]
  · cases h

end NodeAgent
