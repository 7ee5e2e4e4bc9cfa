import Jetrun.Proofs.Authz
import Jetrun.Tenancy

/-!
# What a decision depends on

A permission is held through one grant and one row of its role, so holding it is monotone in the
tables and in the lineage. Two servers on different tables answer a principal alike when the tables
give its organization and identifier the same standing and the same query results: what anybody else
asked only touches other entries of the cache.
-/

namespace Jetrun

section Rows

namespace Tables

variable {t t' : Tables} {principal q : Principal} {scope : Scope} {permission : Permission}

theorem mem_queryPermissions_iff_grant : permission ∈ t.queryPermissions principal scope ↔
    ∃ grant ∈ t.roleAssignments, t.Reaches grant principal scope ∧ t.Bestows grant permission := by
  rw [mem_queryPermissions]
  constructor
  · rintro ⟨id, hid, grant, hgrant, horg, hnames, hbestows, hcovers⟩
    exact ⟨grant, hgrant, ⟨id, hid, horg, hnames, hcovers⟩, hbestows⟩
  · rintro ⟨grant, hgrant, ⟨id, hid, horg, hnames, hcovers⟩, hbestows⟩
    exact ⟨id, hid, grant, hgrant, horg, hnames, hbestows, hcovers⟩

theorem Reaches.of_lineage {grant : RoleAssignmentRow} {scope' : Scope}
    (hsub : scope.lineage ⊆ scope'.lineage) (h : t.Reaches grant principal scope) :
    t.Reaches grant principal scope' := by
  obtain ⟨id, hid, horg, hnames, hcovers⟩ := h
  rw [Scope.coveredBy_iff] at hcovers
  exact ⟨id, hid, horg, hnames, Scope.coveredBy_iff.2 (hsub hcovers)⟩

theorem Reaches.of_teams {grant : RoleAssignmentRow}
    (hteams : ∀ org user, t.teamsOf org user ⊆ t'.teamsOf org user)
    (h : t.Reaches grant principal scope) : t'.Reaches grant principal scope := by
  obtain ⟨id, hid, horg, hnames, hcovers⟩ := h
  refine ⟨id, hid, horg, hnames.imp_right fun hteam => ?_, hcovers⟩
  exact ⟨hteam.1, hteams _ _ hteam.2⟩

theorem Bestows.of_subset {grant : RoleAssignmentRow}
    (hsub : t.rolePermissions ⊆ t'.rolePermissions) (h : t.Bestows grant permission) :
    t'.Bestows grant permission := by
  obtain ⟨rp, hrp, hrow⟩ := h
  exact ⟨rp, hsub hrp, hrow⟩

theorem queryPermissions_of_lineage {scope' : Scope} (hsub : scope.lineage ⊆ scope'.lineage) :
    t.queryPermissions principal scope ⊆ t.queryPermissions principal scope' := by
  intro permission h
  rw [mem_queryPermissions_iff_grant] at h ⊢
  obtain ⟨grant, hgrant, hreaches, hbestows⟩ := h
  exact ⟨grant, hgrant, hreaches.of_lineage hsub, hbestows⟩

theorem teamsOf_adding (as : List RoleAssignmentRow) (rps : List RolePermissionRow)
    (ms : List TeamMemberRow) (org user : String) :
    t.teamsOf org user ⊆ (t.adding as rps ms).teamsOf org user := by
  intro team h
  rw [mem_teamsOf] at h ⊢
  obtain ⟨m, hm, hrow⟩ := h
  exact ⟨m, List.mem_append_left _ hm, hrow⟩

/-- There are no denials: rows only add permissions. -/
theorem queryPermissions_adding (as : List RoleAssignmentRow) (rps : List RolePermissionRow)
    (ms : List TeamMemberRow) :
    t.queryPermissions principal scope ⊆ (t.adding as rps ms).queryPermissions principal scope := by
  intro permission h
  rw [mem_queryPermissions_iff_grant] at h ⊢
  obtain ⟨grant, hgrant, hreaches, hbestows⟩ := h
  refine ⟨grant, List.mem_append_left _ hgrant, hreaches.of_teams (teamsOf_adding as rps ms), ?_⟩
  exact hbestows.of_subset (List.subset_append_left _ _)

/-- Of the grants, only those within the lineage matter. -/
theorem queryPermissions_assignments {assignments : List RoleAssignmentRow}
    (h : ∀ a, (a.scopeKind, a.scopeId) ∈ scope.lineage →
      (a ∈ t.roleAssignments ↔ a ∈ assignments)) :
    { t with roleAssignments := assignments }.queryPermissions principal scope
      = t.queryPermissions principal scope := by
  ext permission
  rw [mem_queryPermissions_iff_grant, mem_queryPermissions_iff_grant]
  constructor
  · rintro ⟨grant, hgrant, hreaches, hbestows⟩
    have hcovers := hreaches.choose_spec.2.2.2
    exact ⟨grant, (h grant (Scope.coveredBy_iff.1 hcovers)).2 hgrant, hreaches, hbestows⟩
  · rintro ⟨grant, hgrant, hreaches, hbestows⟩
    have hcovers := hreaches.choose_spec.2.2.2
    exact ⟨grant, (h grant (Scope.coveredBy_iff.1 hcovers)).1 hgrant, hreaches, hbestows⟩

/-- Permissions flow down the hierarchy and only down, and rows only add permissions: what is held
at an organization is held at its projects, what is held at a project is held at its pipelines, and
grants at other places than the scope and its ancestors make no difference. -/
theorem permissions_flow_down (t : Tables) (principal : Principal) :
    (∀ org project, t.queryPermissions principal (.org org)
        ⊆ t.queryPermissions principal (.project org project)) ∧
      (∀ org project pipeline, t.queryPermissions principal (.project org project)
        ⊆ t.queryPermissions principal (.pipeline org project pipeline)) ∧
      (∀ as rps ms scope, t.queryPermissions principal scope
        ⊆ (t.adding as rps ms).queryPermissions principal scope) ∧
      ∀ assignments scope, (∀ a, ¬(a ∈ t.roleAssignments ↔ a ∈ assignments) →
          (a.scopeKind, a.scopeId) ∉ scope.lineage) →
        { t with roleAssignments := assignments }.queryPermissions principal scope
          = t.queryPermissions principal scope := by
  refine ⟨fun org project => queryPermissions_of_lineage ?_, fun org project pipeline =>
    queryPermissions_of_lineage ?_, fun as rps ms scope => queryPermissions_adding as rps ms,
    fun assignments scope h => queryPermissions_assignments fun a hlevel => ?_⟩
  · exact List.subset_cons_self _ _
  · exact List.subset_cons_self _ _
  · by_contra hchanged
    exact h a hchanged hlevel

/-- A role on a project makes no difference to another project. -/
theorem sample_flows_down :
    { sampleDb.toTables with roleAssignments := [] }.queryPermissions sampleUser
        (.project ⟨sampleUlid⟩ ⟨otherUlid⟩)
      = sampleDb.queryPermissions sampleUser (.project ⟨sampleUlid⟩ ⟨otherUlid⟩) := by
  refine (permissions_flow_down sampleDb.toTables sampleUser).2.2.2 [] _ fun a ha => ?_
  have hmem : a ∈ sampleDb.roleAssignments := by
    by_contra hno
    exact ha (iff_of_false hno List.not_mem_nil)
  cases List.mem_singleton.1 hmem
  decide +kernel

end Tables

end Rows

section Alike

variable {t t' : Tables} {principal q : Principal} {c c' : DecisionCache}

namespace DecisionCache

/-- The caches hold the same under every key of the principal. -/
structure Alike (c c' : DecisionCache) (principal : Principal) : Prop where
  generation : c.generation = c'.generation
  entries : ∀ scope k, key principal scope = some k → c.entries k = c'.entries k

theorem key_congr (horg : q.org = principal.org) (hid : q.idString = principal.idString)
    (scope : Scope) : key q scope = key principal scope := by
  unfold key
  rw [horg, hid]

theorem Alike.congr (h : c.Alike c' principal) (horg : q.org = principal.org)
    (hid : q.idString = principal.idString) : c.Alike c' q :=
  ⟨h.generation, fun scope k hk => h.entries scope k (key_congr horg hid scope ▸ hk)⟩

theorem Alike.fill (h : c.Alike c' principal) (k : CacheKey) (entry : CacheEntry) :
    (c.fill k entry).Alike (c'.fill k entry) principal := by
  refine ⟨h.generation, fun scope l hl => ?_⟩
  show Function.update c.entries k _ l = Function.update c'.entries k _ l
  by_cases hkl : l = k
  · rw [hkl, Function.update_self, Function.update_self]
  · rw [Function.update_of_ne hkl, Function.update_of_ne hkl]
    exact h.entries scope l hl

theorem Alike.hit (h : c.Alike c' principal) {scope : Scope} {k : CacheKey}
    (hk : key principal scope = some k) (genNow now : ℕ) : c.hit k genNow now = c'.hit k genNow now := by
  unfold DecisionCache.hit
  rw [h.entries scope k hk]

/-- A lookup by the principal itself. -/
theorem Alike.permissions (h : c.Alike c' principal) {scope : Scope} (now later : ℕ)
    (hquery : t.queryPermissions principal scope = t'.queryPermissions principal scope) :
    (c.permissions (.ok t) now later principal scope).1
        = (c'.permissions (.ok t') now later principal scope).1 ∧
      (c.permissions (.ok t) now later principal scope).2.Alike
        (c'.permissions (.ok t') now later principal scope).2 principal := by
  unfold DecisionCache.permissions
  rcases hk : key principal scope with _ | k
  · exact ⟨rfl, h⟩
  · rw [← h.generation]
    have hhit := h.hit hk c.generation now
    rcases hc : c.hit k c.generation now with _ | held
    · rw [hc] at hhit
      simp only [hc, ← hhit, hquery]
      exact ⟨trivial, h.fill k _⟩
    · rw [hc] at hhit
      simp only [hc, ← hhit]
      exact ⟨trivial, h⟩

/-- A lookup leaves the keys of the others alone. -/
theorem permissions_others (found : Except StoreError Tables) (now later : ℕ) (scope : Scope)
    (hne : ¬(q.org = principal.org ∧ q.idString = principal.idString)) :
    (c.permissions found now later q scope).2.generation = c.generation ∧
      ∀ scope' k, key principal scope' = some k →
        (c.permissions found now later q scope).2.entries k = c.entries k := by
  unfold DecisionCache.permissions
  rcases hkq : key q scope with _ | kq
  · exact ⟨rfl, fun _ _ _ => rfl⟩
  · rcases hhit : c.hit kq c.generation now with _ | held
    · rcases found with e | t
      · simp only [hhit]
        exact ⟨trivial, fun _ _ _ => trivial⟩
      · simp only [hhit]
        refine ⟨rfl, fun scope' k hk => ?_⟩
        have hkk : k ≠ kq := by
          rintro rfl
          obtain ⟨-, horg, hid, -⟩ := key_eq_key_iff.1 ⟨_, hkq, hk⟩
          exact hne ⟨horg, hid⟩
        exact Function.update_of_ne hkk ..
    · simp only [hhit]
      exact ⟨trivial, fun _ _ _ => trivial⟩

theorem authorize_cache (check : Check) (permission : Permission) (scope : Scope) :
    (c.authorize check principal permission scope).2
      = (c.effectivePermissions check principal scope).2 := by
  unfold authorize effectivePermissions
  split_ifs
  · rfl
  · rfl
  · rcases check.standing with e | t
    · rfl
    · simp only
      split_ifs
      · rfl
      · rcases c.permissions check.grants check.now check.later principal scope with ⟨e | held, c'⟩
        · rfl
        · simp only
          split_ifs <;> rfl

/-- A check of the principal itself. -/
theorem Alike.effectivePermissions (h : c.Alike c' principal) {scope : Scope} (now later : ℕ)
    (hactive : t.isActivePrincipal principal = t'.isActivePrincipal principal)
    (hquery : scope.orgId = principal.org →
      t.queryPermissions principal scope = t'.queryPermissions principal scope) :
    (c.effectivePermissions ⟨.ok t, .ok t, now, later⟩ principal scope).1
        = (c'.effectivePermissions ⟨.ok t', .ok t', now, later⟩ principal scope).1 ∧
      (c.effectivePermissions ⟨.ok t, .ok t, now, later⟩ principal scope).2.Alike
        (c'.effectivePermissions ⟨.ok t', .ok t', now, later⟩ principal scope).2 principal := by
  unfold DecisionCache.effectivePermissions
  simp only [hactive]
  split_ifs with hsystem horg hstanding
  · exact ⟨rfl, h⟩
  · exact ⟨rfl, h⟩
  · exact ⟨rfl, h⟩
  · exact h.permissions now later (hquery (not_not.1 horg))

theorem effectivePermissions_others (check : Check) (scope : Scope)
    (hne : ¬(q.org = principal.org ∧ q.idString = principal.idString)) :
    (c.effectivePermissions check q scope).2.generation = c.generation ∧
      ∀ scope' k, key principal scope' = some k →
        (c.effectivePermissions check q scope).2.entries k = c.entries k := by
  unfold effectivePermissions
  rcases check.standing with e | t
  · split_ifs <;> exact ⟨rfl, fun _ _ _ => rfl⟩
  · simp only
    split_ifs
    · exact ⟨rfl, fun _ _ _ => rfl⟩
    · exact ⟨rfl, fun _ _ _ => rfl⟩
    · exact ⟨rfl, fun _ _ _ => rfl⟩
    · exact permissions_others check.grants check.now check.later scope hne

/-- A check of anybody. -/
theorem Alike.check (h : c.Alike c' principal)
    (hactive : ∀ q : Principal, q.org = principal.org → q.idString = principal.idString →
      t.isActivePrincipal q = t'.isActivePrincipal q)
    (hquery : ∀ scope : Scope, scope.orgId = principal.org →
      t.queryPermissions principal scope = t'.queryPermissions principal scope) (l : Lookup) :
    (c.effectivePermissions ⟨.ok t, .ok t, l.now, l.later⟩ l.principal l.scope).2.Alike
      (c'.effectivePermissions ⟨.ok t', .ok t', l.now, l.later⟩ l.principal l.scope).2
      principal := by
  by_cases hsame : l.principal.org = principal.org ∧ l.principal.idString = principal.idString
  · obtain ⟨horg, hid⟩ := hsame
    have hq := (h.congr horg hid).effectivePermissions l.now l.later (hactive _ horg hid)
      fun (hscope : l.scope.orgId = _) => by
        rw [t.queryPermissions_congr horg hid, t'.queryPermissions_congr horg hid]
        exact hquery _ (hscope.trans horg)
    exact hq.2.congr horg.symm hid.symm
  · obtain ⟨hgen, hentries⟩ :=
      effectivePermissions_others (c := c) ⟨.ok t, .ok t, l.now, l.later⟩ l.scope hsame
    obtain ⟨hgen', hentries'⟩ :=
      effectivePermissions_others (c := c') ⟨.ok t', .ok t', l.now, l.later⟩ l.scope hsame
    refine ⟨hgen.trans (h.generation.trans hgen'.symm), fun scope k hk => ?_⟩
    rw [hentries scope k hk, hentries' scope k hk]
    exact h.entries scope k hk

theorem Alike.asked (h : c.Alike c' principal)
    (hactive : ∀ q : Principal, q.org = principal.org → q.idString = principal.idString →
      t.isActivePrincipal q = t'.isActivePrincipal q)
    (hquery : ∀ scope : Scope, scope.orgId = principal.org →
      t.queryPermissions principal scope = t'.queryPermissions principal scope) (ask : Ask) :
    (c.asked t ask).Alike (c'.asked t' ask) principal := by
  cases ask with
  | authorize l permission =>
    unfold DecisionCache.asked
    simp only [authorize_cache]
    exact h.check hactive hquery l
  | effectivePermissions l => exact h.check hactive hquery l
  | invalidate =>
    refine ⟨?_, fun _ _ _ => rfl⟩
    show (c.generation + 1) % 2 ^ 64 = (c'.generation + 1) % 2 ^ 64
    rw [h.generation]

/-- What was asked before leaves the caches alike. -/
theorem alike_after (hactive : ∀ q : Principal, q.org = principal.org →
      q.idString = principal.idString → t.isActivePrincipal q = t'.isActivePrincipal q)
    (hquery : ∀ scope : Scope, scope.orgId = principal.org →
      t.queryPermissions principal scope = t'.queryPermissions principal scope)
    (asks : List Ask) : (after t asks).Alike (after t' asks) principal := by
  have hrun : ∀ (asks : List Ask) (c c' : DecisionCache), c.Alike c' principal →
      (asks.foldl (DecisionCache.asked t) c).Alike (asks.foldl (DecisionCache.asked t') c')
        principal := by
    intro asks
    induction asks with
    | nil => exact fun c c' h => h
    | cons ask asks ih => exact fun c c' h => ih _ _ (h.asked hactive hquery ask)
  exact hrun asks empty empty ⟨rfl, fun _ _ _ => rfl⟩

/-- One of the entry points answers as the other does. -/
theorem authorize_answer {check check' : Check} {scope : Scope}
    (h : (c.effectivePermissions check principal scope).1
      = (c'.effectivePermissions check' principal scope).1)
    (hactive : ∃ t t', check.standing = .ok t ∧ check'.standing = .ok t' ∧
      t.isActivePrincipal principal = t'.isActivePrincipal principal) (permission : Permission) :
    (c.authorize check principal permission scope).1
      = (c'.authorize check' principal permission scope).1 := by
  obtain ⟨t, t', ht, ht', hactive⟩ := hactive
  unfold effectivePermissions at h
  unfold authorize
  simp only [ht, ht', hactive] at h ⊢
  split_ifs at h ⊢
  · rfl
  · rfl
  · rfl
  · rcases hp : c.permissions check.grants check.now check.later principal scope with ⟨a, d⟩
    rcases hp' : c'.permissions check'.grants check'.now check'.later principal scope with ⟨a', d'⟩
    rw [hp, hp'] at h
    cases h
    rcases a with e | held
    · rfl
    · simp only
      split_ifs <;> rfl

end DecisionCache

/-- Tables that give everybody under the principal's identifier the same standing, and the principal
the same query results if it is in good standing, answer it alike. -/
theorem Tables.answersAs_of
    (hactive : ∀ q : Principal, q.org = principal.org → q.idString = principal.idString →
      t.isActivePrincipal q = t'.isActivePrincipal q)
    (hquery : t.GoodStanding principal → ∀ scope : Scope, scope.orgId = principal.org →
      t.queryPermissions principal scope = t'.queryPermissions principal scope) :
    t.AnswersAs t' principal := by
  intro asks now later scope
  have hself := hactive principal rfl rfl
  have heffective : ((DecisionCache.after t asks).effectivePermissions ⟨.ok t, .ok t, now, later⟩
        principal scope).1
      = ((DecisionCache.after t' asks).effectivePermissions ⟨.ok t', .ok t', now, later⟩ principal
        scope).1 := by
    by_cases hstanding : t.GoodStanding principal
    · have halike := DecisionCache.alike_after hactive (hquery hstanding) asks
      exact (halike.effectivePermissions now later hself (hquery hstanding scope)).1
    · -- a principal that is not in good standing gets no further than that
      rw [← Tables.isActivePrincipal_iff, Bool.not_eq_true] at hstanding
      unfold DecisionCache.effectivePermissions
      simp only [hstanding, hself ▸ hstanding]
      split_ifs <;> rfl
  refine ⟨fun permission => ?_, heffective⟩
  exact DecisionCache.authorize_answer heffective ⟨t, t', rfl, rfl, hself⟩ permission

theorem DecisionCache.effectivePermissions_first (hsystem : principal.isSystem = false)
    (hstanding : t.GoodStanding principal) {scope : Scope} (hscope : scope.orgId = principal.org)
    (now later : ℕ) :
    ((DecisionCache.after t []).effectivePermissions ⟨.ok t, .ok t, now, later⟩ principal scope).1
      = .ok (t.queryPermissions principal scope) := by
  rw [← Tables.isActivePrincipal_iff] at hstanding
  unfold DecisionCache.effectivePermissions
  simp only [hsystem, hscope, hstanding, ne_eq, not_true_eq_false, if_false, Bool.false_eq_true,
    Bool.true_eq_false]
  exact DecisionCache.permissions_of_empty _ (fun _ => rfl) t now later principal scope

theorem Tables.AnswersAs.queryPermissions (h : t.AnswersAs t' principal)
    (hsystem : principal.isSystem = false) (hstanding : t.GoodStanding principal)
    (hstanding' : t'.GoodStanding principal) {scope : Scope}
    (hscope : scope.orgId = principal.org) :
    t.queryPermissions principal scope = t'.queryPermissions principal scope := by
  have heffective := (h [] 0 0 scope).2
  rw [DecisionCache.effectivePermissions_first hsystem hstanding hscope,
    DecisionCache.effectivePermissions_first hsystem hstanding' hscope] at heffective
  exact Except.ok.inj heffective

end Alike

section Isolation

namespace Tables

variable {t t' : Tables} {org : OrgId} {principal : Principal} {scope : Scope}
  {permission : Permission}

instance (org roleId : String) : Decidable (t.OwnRole org roleId) :=
  inferInstanceAs (Decidable (∃ r ∈ t.roles, _))

variable (ha : t.AgreeOn t' org.toCanonical)

include ha

theorem AgreeOn.ownRole (roleId : String) :
    t.OwnRole org.toCanonical roleId ↔ t'.OwnRole org.toCanonical roleId := by
  constructor
  · rintro ⟨r, hr, hid, hown⟩
    exact ⟨r, (ha.roles r hown).1 hr, hid, hown⟩
  · rintro ⟨r, hr, hid, hown⟩
    exact ⟨r, (ha.roles r hown).2 hr, hid, hown⟩

theorem AgreeOn.ownTeam (teamId : String) :
    t.OwnTeam org.toCanonical teamId ↔ t'.OwnTeam org.toCanonical teamId := by
  constructor
  · rintro ⟨team, hteam, hid, hown⟩
    exact ⟨team, (ha.teams team hown).1 hteam, hid, hown⟩
  · rintro ⟨team, hteam, hid, hown⟩
    exact ⟨team, (ha.teams team hown).2 hteam, hid, hown⟩

theorem AgreeOn.symm : t'.AgreeOn t org.toCanonical where
  users u := (ha.users u).symm
  permissions p := (ha.permissions p).symm
  memberships m hm := (ha.memberships m hm).symm
  teams team h := (ha.teams team h).symm
  teamMembers m h := (ha.teamMembers m ((ha.ownTeam m.teamId).2 h)).symm
  roles r h := (ha.roles r h).symm
  rolePermissions rp h := (ha.rolePermissions rp ((ha.ownRole rp.roleId).2 h)).symm
  serviceAccounts s h := (ha.serviceAccounts s h).symm
  roleAssignments a h := (ha.roleAssignments a h).symm

theorem AgreeOn.teamsOf_subset (user : String) :
    t.teamsOf org.toCanonical user ⊆ t'.teamsOf org.toCanonical user := by
  intro team h
  rw [mem_teamsOf] at h ⊢
  obtain ⟨m, hm, hteam, huser, row, hrow, hid, horg⟩ := h
  have hown : t.OwnTeam org.toCanonical m.teamId := ⟨row, hrow, hid.trans hteam.symm, horg⟩
  exact ⟨m, (ha.teamMembers m hown).1 hm, hteam, huser, row, (ha.teams row horg).1 hrow, hid, horg⟩

theorem AgreeOn.reaches {grant : RoleAssignmentRow} (horg : principal.org = org)
    (h : t.Reaches grant principal scope) : t'.Reaches grant principal scope := by
  obtain ⟨id, hid, hgrant, hnames, hcovers⟩ := h
  rw [horg] at hgrant hnames
  refine ⟨id, hid, horg ▸ hgrant, ?_, hcovers⟩
  rw [horg]
  exact hnames.imp_right fun hteam => ⟨hteam.1, ha.teamsOf_subset _ hteam.2⟩

theorem AgreeOn.bestows {grant : RoleAssignmentRow} (hown : t.OwnRole org.toCanonical grant.roleId)
    (h : t.Bestows grant permission) : t'.Bestows grant permission := by
  obtain ⟨rp, hrp, hrole, hkey⟩ := h
  exact ⟨rp, (ha.rolePermissions rp (hrole ▸ hown)).1 hrp, hrole, hkey⟩

theorem AgreeOn.goodStanding (horg : principal.org = org) (h : t.GoodStanding principal) :
    t'.GoodStanding principal := by
  cases principal with
  | user o user =>
    obtain rfl : o = org := horg
    obtain ⟨⟨m, hm, hmorg, hrow⟩, u, hu, hrow'⟩ := h
    exact ⟨⟨m, (ha.memberships m hmorg).1 hm, hmorg, hrow⟩, u, (ha.users u).1 hu, hrow'⟩
  | serviceAccount o sa =>
    obtain rfl : o = org := horg
    obtain ⟨s, hs, hid, hsorg, hdisabled⟩ := h
    exact ⟨s, (ha.serviceAccounts s hsorg).1 hs, hid, hsorg, hdisabled⟩
  | system o => exact trivial

theorem AgreeOn.isActivePrincipal (horg : principal.org = org) :
    t.isActivePrincipal principal = t'.isActivePrincipal principal := by
  rw [Bool.eq_iff_iff, isActivePrincipal_iff, isActivePrincipal_iff]
  exact ⟨ha.goodStanding horg, ha.symm.goodStanding horg⟩

omit ha

variable (t) in
/-- The permission is held through a grant to a role of the organization or a built-in one. -/
def HeldOwn (org : OrgId) (principal : Principal) (scope : Scope) (permission : Permission) : Prop :=
  ∃ own ∈ t.roleAssignments, t.Reaches own principal scope ∧
    t.OwnRole org.toCanonical own.roleId ∧ t.Bestows own permission

theorem Reaches.orgId {grant : RoleAssignmentRow} (h : t.Reaches grant principal scope) :
    grant.orgId = principal.org.toCanonical :=
  h.choose_spec.2.1

theorem HeldOwn.held (h : t.HeldOwn org principal scope permission) :
    permission ∈ t.queryPermissions principal scope := by
  obtain ⟨own, hmem, hreaches, -, hbestows⟩ := h
  exact mem_queryPermissions_iff_grant.2 ⟨own, hmem, hreaches, hbestows⟩

include ha

theorem AgreeOn.heldOwn (horg : principal.org = org)
    (h : t.HeldOwn org principal scope permission) : t'.HeldOwn org principal scope permission := by
  obtain ⟨own, hmem, hreaches, hown, hbestows⟩ := h
  refine ⟨own, (ha.roleAssignments own (hreaches.orgId.trans (congrArg _ horg))).1 hmem, ?_⟩
  exact ⟨ha.reaches horg hreaches, (ha.ownRole _).1 hown, ha.bestows hown hbestows⟩

omit ha

/-- In tables that agree with confined ones, what is held is held through an own role. -/
theorem AgreeOn.heldOwn_of_held {db db' : Db} (ha : db.AgreeOn db'.toTables org.toCanonical)
    (hconfined : db.Confined org) (horg : principal.org = org) (hscope : scope.orgId = org)
    (hstanding : db.GoodStanding principal)
    (h : permission ∈ db'.queryPermissions principal scope) :
    db.HeldOwn org principal scope permission := by
  obtain ⟨grant, hgrant, hreaches, hbestows⟩ := mem_queryPermissions_iff_grant.1 h
  have hgrantOrg : grant.orgId = org.toCanonical := hreaches.orgId.trans (congrArg _ horg)
  have hmem : grant ∈ db.roleAssignments := (ha.roleAssignments grant hgrantOrg).2 hgrant
  have hreaches' : db.Reaches grant principal scope := ha.symm.reaches horg hreaches
  rcases hconfined principal scope horg hscope hstanding grant hmem hreaches' with hown | hall
  · exact ⟨grant, hmem, hreaches', hown, ha.symm.bestows ((ha.ownRole _).1 hown) hbestows⟩
  · obtain ⟨rp, hrp, -, hkey⟩ := hbestows
    have hcatalog : permission.asStr ∈ db'.permissions :=
      hkey ▸ db'.rolePermissions_permission rp hrp
    exact hall permission ((ha.permissions _).2 hcatalog)

theorem AgreeOn.queryPermissions {db db' : Db} (ha : db.AgreeOn db'.toTables org.toCanonical)
    (hconfined : db.Confined org) (horg : principal.org = org) (hscope : scope.orgId = org)
    (hstanding : db.GoodStanding principal) :
    db.queryPermissions principal scope = db'.queryPermissions principal scope := by
  have hself : db.AgreeOn db.toTables org.toCanonical := by
    constructor <;> exact fun _ => by simp
  ext permission
  constructor
  · intro h
    have hown := hself.heldOwn_of_held hconfined horg hscope hstanding h
    exact (ha.heldOwn horg hown).held
  · intro h
    exact (ha.heldOwn_of_held hconfined horg hscope hstanding h).held

end Tables

namespace Db

variable (db : Db) {org : OrgId} {principal : Principal} {scope : Scope} {permission : Permission}

/-- Other organizations' roles without their permissions. -/
def stripped (org : String) : Db :=
  db.withRolePermissions (db.rolePermissions.filter fun rp => db.OwnRole org rp.roleId)
    (db.rolePermissions_key.sublist (List.filter_sublist.map _))
    (fun r hr => db.rolePermissions_role r (List.mem_of_mem_filter hr))
    (fun r hr => db.rolePermissions_permission r (List.mem_of_mem_filter hr))

/-- One more permission of a role. -/
def bestowing (grant : RoleAssignmentRow) (hgrant : grant ∈ db.roleAssignments)
    (permission : Permission) (hcatalog : permission.asStr ∈ db.permissions)
    (hno : ¬db.Bestows grant permission) : Db :=
  db.withRolePermissions (⟨grant.roleId, permission.asStr⟩ :: db.rolePermissions)
    (by
      rw [List.map_cons, List.nodup_cons]
      refine ⟨fun hmem => hno ?_, db.rolePermissions_key⟩
      obtain ⟨rp, hrp, hrow⟩ := List.mem_map.1 hmem
      rw [Prod.mk.injEq] at hrow
      exact ⟨rp, hrp, hrow.1, hrow.2⟩)
    (List.forall_mem_cons.2 ⟨db.roleAssignments_role grant hgrant, db.rolePermissions_role⟩)
    (List.forall_mem_cons.2 ⟨hcatalog, db.rolePermissions_permission⟩)

theorem agreeOn_withRolePermissions {rows : List RolePermissionRow} {hkey hrole hpermission}
    {org : String} (h : ∀ rp, db.OwnRole org rp.roleId → (rp ∈ db.rolePermissions ↔ rp ∈ rows)) :
    db.AgreeOn (db.withRolePermissions rows hkey hrole hpermission).toTables org where
  users _ := Iff.rfl
  permissions _ := Iff.rfl
  memberships _ _ := Iff.rfl
  teams _ _ := Iff.rfl
  teamMembers _ _ := Iff.rfl
  roles _ _ := Iff.rfl
  rolePermissions := h
  serviceAccounts _ _ := Iff.rfl
  roleAssignments _ _ := Iff.rfl

/-- A permission that would come only through another organization's role does not depend on the
organization's own rows: the database that differs in that role's permissions is as good. -/
theorem exists_disagreeing {grant : RoleAssignmentRow} (hgrant : grant ∈ db.roleAssignments)
    (hreaches : db.Reaches grant principal scope)
    (hforeign : ¬db.OwnRole org.toCanonical grant.roleId)
    (hcatalog : permission.asStr ∈ db.permissions)
    (hno : ¬db.HeldOwn org principal scope permission) :
    ∃ db' : Db, db.AgreeOn db'.toTables org.toCanonical ∧
      (permission ∈ db.queryPermissions principal scope ↔
        permission ∉ db'.queryPermissions principal scope) := by
  by_cases hheld : permission ∈ db.queryPermissions principal scope
  · refine ⟨db.stripped org.toCanonical, db.agreeOn_withRolePermissions fun rp hown => ?_,
      iff_of_true hheld fun hstill => hno ?_⟩
    · rw [List.mem_filter]
      exact ⟨fun hrp => ⟨hrp, decide_eq_true hown⟩, And.left⟩
    · obtain ⟨own, hmem, hown, rp, hrp, hrole, hkey⟩ :=
        Tables.mem_queryPermissions_iff_grant.1 hstill
      obtain ⟨hrp, hrpOwn⟩ := List.mem_filter.1 hrp
      have hownRole : db.OwnRole org.toCanonical own.roleId := hrole ▸ of_decide_eq_true hrpOwn
      exact ⟨own, hmem, hown, hownRole, rp, hrp, hrole, hkey⟩
  · have hbestows : ¬db.Bestows grant permission := fun hbestows =>
      hheld (Tables.mem_queryPermissions_iff_grant.2 ⟨grant, hgrant, hreaches, hbestows⟩)
    refine ⟨db.bestowing grant hgrant permission hcatalog hbestows,
      db.agreeOn_withRolePermissions fun rp hown => ?_, iff_of_false hheld fun hnot => hnot ?_⟩
    · rw [List.mem_cons, or_iff_right]
      rintro rfl
      exact hforeign hown
    · exact Tables.mem_queryPermissions_iff_grant.2
        ⟨grant, hgrant, hreaches, _, List.mem_cons_self, rfl, rfl⟩

/-- The decisions about an organization's principals depend on its own rows and the shared ones if
and only if its grants are confined to its own roles and the built-in ones, as far as it matters. -/
theorem isolated_iff (db : Db) (org : OrgId) :
    (∀ db' : Db, db.AgreeOn db'.toTables org.toCanonical → ∀ principal : Principal,
        principal.org = org → principal.isSystem = false →
          db.AnswersAs db'.toTables principal) ↔
      db.Confined org := by
  constructor
  · intro h principal scope horg hscope hstanding grant hgrant hreaches
    by_contra hcon
    push Not at hcon
    obtain ⟨hforeign, permission, hcatalog, hnone⟩ := hcon
    have hno : ¬db.HeldOwn org principal scope permission := by
      rintro ⟨own, hmem, hreach, hown, hbestows⟩
      exact hnone own hmem hreach hown hbestows
    obtain ⟨db', ha, hdiffer⟩ := db.exists_disagreeing hgrant hreaches hforeign hcatalog hno
    have hsystem : principal.isSystem = false := by
      obtain ⟨id, hid, -⟩ := hreaches
      cases principal <;> first | rfl | cases hid
    have hsame := (h db' ha principal horg hsystem).queryPermissions hsystem hstanding
      (ha.goodStanding horg hstanding) (hscope.trans horg.symm)
    rw [hsame] at hdiffer
    exact iff_not_self hdiffer
  · intro hconfined db' ha principal horg hsystem
    refine Tables.answersAs_of (fun q hq hid => ha.isActivePrincipal (hq.trans horg))
      fun hstanding scope hscope => ?_
    exact ha.queryPermissions hconfined horg (hscope.trans horg) hstanding

/-- A user of one organization holds a role that another organization defined. -/
def borrowing (rows : List RolePermissionRow) (hrows : rows ⊆ [⟨"reader", Permission.orgRead.asStr⟩])
    (hkey : (rows.map fun r => (r.roleId, r.permissionKey)).Nodup) : Db :=
  { sampleDb with
    organizations := [sampleUlid.text, otherUlid.text]
    roles := [⟨"reader", some otherUlid.text, "reader", "Reader", "", false, 0⟩]
    rolePermissions := rows
    organizations_key := by decide +kernel
    memberships_org := by simp [sampleDb, granting, Id.toCanonical]
    teams_org := by simp [sampleDb, granting]
    roles_key := by simp
    roles_name := by simp
    roles_check := by simp
    roles_org := by simp
    rolePermissions_key := hkey
    rolePermissions_role := fun r hr => by simp [List.mem_singleton.1 (hrows hr)]
    rolePermissions_permission := fun r hr => by
      simp [List.mem_singleton.1 (hrows hr), sampleDb, granting]
    serviceAccounts_org := by simp [sampleDb, granting]
    roleAssignments_org := by simp [sampleDb, granting, Id.toCanonical]
    roleAssignments_role := by simp [sampleDb, granting] }

/-- The role with its permission, and without it. -/
def borrowed : Db :=
  borrowing [⟨"reader", Permission.orgRead.asStr⟩] (List.Subset.refl _) (List.nodup_singleton _)

def revoked : Db := borrowing [] (List.nil_subset _) List.nodup_nil

/-- The other organization takes the permission out of its own role, and the user of this one loses
it. -/
theorem other_tenant_decides : borrowed.AgreeOn revoked.toTables sampleUlid.text ∧
    sampleUser.org.toCanonical = sampleUlid.text ∧ sampleUser.isSystem = false ∧
      ¬borrowed.AnswersAs revoked.toTables sampleUser := by
  have hstanding : ∀ rows hrows hkey, (borrowing rows hrows hkey).GoodStanding sampleUser :=
    fun _ _ _ => ⟨⟨_, List.mem_cons_self, rfl, rfl, rfl⟩, _, List.mem_cons_self, rfl, rfl⟩
  refine ⟨borrowed.agreeOn_withRolePermissions fun rp hown => ?_, rfl, rfl, fun h => ?_⟩
  · obtain ⟨r, hr, -, hown⟩ := hown
    cases List.mem_singleton.1 hr
    have hne : ¬((some otherUlid.text : Option String) = none ∨
        some otherUlid.text = some sampleUlid.text) := by
      decide +kernel
    exact absurd hown hne
  · have hsame := h.queryPermissions rfl (hstanding _ _ _) (hstanding _ _ _)
      (show (samplePipeline sampleUlid).orgId = sampleUser.org from rfl)
    have hreaches : borrowed.Reaches
        ⟨"grant", sampleUlid.text, .user, sampleUlid.text, "reader", .project, sampleUlid.text⟩
        sampleUser (samplePipeline sampleUlid) := by
      refine ⟨_, rfl, rfl, .inl ⟨.inl rfl, rfl⟩, ?_⟩
      exact Scope.coveredBy_iff.2 (List.mem_cons_of_mem _ List.mem_cons_self)
    have hheld : .orgRead ∈ borrowed.queryPermissions sampleUser (samplePipeline sampleUlid) :=
      Tables.mem_queryPermissions_iff_grant.2
        ⟨_, List.mem_cons_self, hreaches, _, List.mem_cons_self, rfl, rfl⟩
    rw [hsame, Tables.mem_queryPermissions_iff_grant] at hheld
    obtain ⟨grant, -, -, rp, hrp, -⟩ := hheld
    cases hrp

end Db

end Isolation

section Kinds

namespace Tables

variable {t : Tables} {principal : Principal} {kind : PrincipalKind} {scope : Scope}
  {permission : Permission}

/-- Of the grants to the mistaken kind, those with the principal's own identifier count for it. -/
theorem Reaches.mistaken {grant : RoleAssignmentRow} (hmistaken : principal.Mistaken kind)
    (hkind : grant.principalKind = kind) :
    t.Reaches grant principal scope ↔ grant.orgId = principal.org.toCanonical ∧
      principal.idString = some grant.principalId ∧
      scope.coveredBy grant.scopeKind grant.scopeId = true := by
  have hteam : kind ≠ .team ∧ (kind = .user ∨ kind = .serviceAccount) := by
    cases principal with
    | user o u =>
      obtain rfl : kind = .serviceAccount := hmistaken
      exact ⟨by decide, .inr rfl⟩
    | serviceAccount o sa =>
      obtain rfl : kind = .user := hmistaken
      exact ⟨by decide, .inl rfl⟩
    | system o => exact absurd hmistaken id
  constructor
  · rintro ⟨id, hid, horg, ⟨-, hown⟩ | ⟨hisTeam, -⟩, hcovers⟩
    · exact ⟨horg, hown ▸ hid, hcovers⟩
    · exact absurd (hkind.symm.trans hisTeam) hteam.1
  · rintro ⟨horg, hid, hcovers⟩
    exact ⟨_, hid, horg, .inl ⟨hkind.symm ▸ hteam.2, rfl⟩, hcovers⟩

theorem mem_queryPermissions_without :
    permission ∈ (t.without kind).queryPermissions principal scope ↔
      ∃ other ∈ t.roleAssignments, other.principalKind ≠ kind ∧
        t.Reaches other principal scope ∧ t.Bestows other permission := by
  rw [mem_queryPermissions_iff_grant]
  constructor
  · rintro ⟨other, hother, hrow⟩
    obtain ⟨hmem, hkind⟩ := List.mem_filter.1 hother
    exact ⟨other, hmem, of_decide_eq_true hkind, hrow⟩
  · rintro ⟨other, hmem, hkind, hrow⟩
    exact ⟨other, List.mem_filter.2 ⟨hmem, decide_eq_true hkind⟩, hrow⟩

/-- Grants to the other kind of principal contribute nothing to what this one may do if and only if
none of them carries its identifier, as far as it matters. -/
theorem kind_told_iff (t : Tables) {principal : Principal} {kind : PrincipalKind}
    (hmistaken : principal.Mistaken kind) :
    t.AnswersAs (t.without kind) principal ↔ t.KindsTold principal kind := by
  constructor
  · intro h hstanding grant hgrant hkind horg hid scope hscope hcovers permission hbestows
    have hsystem : principal.isSystem = false := by
      cases principal <;> first | rfl | cases hid
    have hsame := h.queryPermissions hsystem hstanding hstanding hscope
    have hheld : permission ∈ t.queryPermissions principal scope :=
      mem_queryPermissions_iff_grant.2
        ⟨grant, hgrant, (Reaches.mistaken hmistaken hkind).2 ⟨horg, hid, hcovers⟩, hbestows⟩
    rw [hsame] at hheld
    exact mem_queryPermissions_without.1 hheld
  · intro h
    refine answersAs_of (fun q _ _ => rfl) fun hstanding scope hscope => ?_
    ext permission
    rw [mem_queryPermissions_without, mem_queryPermissions_iff_grant]
    constructor
    · rintro ⟨grant, hgrant, hreaches, hbestows⟩
      by_cases hkind : grant.principalKind = kind
      · obtain ⟨horg, hid, hcovers⟩ := (Reaches.mistaken hmistaken hkind).1 hreaches
        exact h hstanding grant hgrant hkind horg hid scope hscope hcovers permission hbestows
      · exact ⟨grant, hgrant, hkind, hreaches, hbestows⟩
    · rintro ⟨other, hmem, -, hrow⟩
      exact ⟨other, hmem, hrow⟩

end Tables

namespace Db

/-- A service account with the identifier of a user, and a role granted to it alone. -/
def doubled : Db :=
  { sampleDb with
    serviceAccounts := [⟨sampleUlid.text, sampleUlid.text, none⟩]
    roleAssignments := [⟨"grant", sampleUlid.text, .serviceAccount, sampleUlid.text, "reader",
      .project, sampleUlid.text⟩]
    serviceAccounts_key := by simp
    serviceAccounts_org := by simp [sampleDb, granting, Id.toCanonical]
    roleAssignments_key := by simp
    roleAssignments_once := by simp
    roleAssignments_org := by simp [sampleDb, granting, Id.toCanonical]
    roleAssignments_role := by simp [sampleDb, granting] }

/-- The user may do what was granted to the service account. -/
theorem doubled_confused : sampleUser.Mistaken .serviceAccount ∧
    ¬doubled.AnswersAs (doubled.without .serviceAccount) sampleUser := by
  refine ⟨rfl, fun h => ?_⟩
  have hstanding : doubled.GoodStanding sampleUser :=
    ⟨⟨_, List.mem_cons_self, rfl, rfl, rfl⟩, _, List.mem_cons_self, rfl, rfl⟩
  have hsame := h.queryPermissions rfl hstanding hstanding
    (show (samplePipeline sampleUlid).orgId = sampleUser.org from rfl)
  have hheld : .orgRead ∈ doubled.queryPermissions sampleUser (samplePipeline sampleUlid) := by
    refine Tables.mem_queryPermissions_iff_grant.2 ⟨_, List.mem_cons_self, ⟨_, rfl, rfl,
      .inl ⟨.inr rfl, rfl⟩, ?_⟩, _, List.mem_cons_self, rfl, rfl⟩
    exact Scope.coveredBy_iff.2 (List.mem_cons_of_mem _ List.mem_cons_self)
  rw [hsame, Tables.mem_queryPermissions_without] at hheld
  obtain ⟨other, hother, hkind, -⟩ := hheld
  cases List.mem_singleton.1 hother
  exact hkind rfl

/-- A role granted to the user itself: grants to service accounts would not change its answers. -/
theorem sample_told :
    sampleDb.AnswersAs (sampleDb.without .serviceAccount) sampleUser ↔
      sampleDb.KindsTold sampleUser .serviceAccount :=
  Tables.kind_told_iff sampleDb.toTables rfl

end Db

end Kinds

end Jetrun
