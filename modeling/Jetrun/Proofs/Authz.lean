import Jetrun.Grants
import Jetrun.Lib.Memo

/-!
# What the authorizer admits

The queries are read back as statements about rows, and a check with nothing in the cache is then
the statement about grants. The cache itself remembers an answer under the principal and the scope's
own identifier, so it is right as long as an identifier comes with one chain of ancestors.
-/

namespace Jetrun

section Permissions

namespace Permission

theorem mem_all (p : Permission) : p ∈ all := by
  cases p <;> decide

theorem fromStr_asStr (p : Permission) : fromStr p.asStr = some p := by
  cases p <;> decide

theorem asStr_inj {p q : Permission} (h : p.asStr = q.asStr) : p = q := by
  have hq := q.fromStr_asStr
  rw [← h, p.fromStr_asStr] at hq
  exact Option.some.inj hq

theorem fromStr_eq_some {s : String} {p : Permission} : fromStr s = some p ↔ s = p.asStr := by
  constructor
  · intro h
    have hp := List.find?_some (p := fun q : Permission => decide (q.asStr = s)) h
    exact (of_decide_eq_true hp).symm
  · rintro rfl
    exact p.fromStr_asStr

end Permission

theorem ScopeKind.asStr_inj {k l : ScopeKind} (h : k.asStr = l.asStr) : k = l := by
  cases k <;> cases l <;> first | rfl | exact absurd h (by decide)

theorem Scope.coveredBy_iff {scope : Scope} {kind : ScopeKind} {id : String} :
    scope.coveredBy kind id = true ↔ (kind, id) ∈ scope.lineage := by
  simp only [coveredBy, List.any_eq_true, decide_eq_true_eq]
  constructor
  · rintro ⟨⟨k, i⟩, hmem, rfl, rfl⟩
    exact hmem
  · intro h
    exact ⟨_, h, rfl, rfl⟩

end Permissions

section Queries

namespace Tables

variable (t : Tables)

theorem mem_teamsOf {org user team : String} :
    team ∈ t.teamsOf org user ↔ ∃ m ∈ t.teamMembers, m.teamId = team ∧ m.userId = user ∧
      ∃ row ∈ t.teams, row.id = team ∧ row.orgId = org := by
  simp only [teamsOf, List.mem_filterMap, Prod.exists, List.pair_mem_product]
  constructor
  · rintro ⟨m, row, ⟨hm, hrow⟩, h⟩
    split_ifs at h with hc
    rw [Option.some.injEq] at h
    exact ⟨m, hm, h, hc.2.1, row, hrow, hc.1.trans h, hc.2.2⟩
  · rintro ⟨m, hm, rfl, hu, row, hrow, hid, ho⟩
    exact ⟨m, row, ⟨hm, hrow⟩, if_pos ⟨hid, hu, ho⟩⟩

theorem mem_queryPermissions {principal : Principal} {scope : Scope} {permission : Permission} :
    permission ∈ t.queryPermissions principal scope ↔
      ∃ id, principal.idString = some id ∧ ∃ grant ∈ t.roleAssignments,
        grant.orgId = principal.org.toCanonical ∧
        ((grant.principalKind = .user ∨ grant.principalKind = .serviceAccount) ∧
            grant.principalId = id ∨
          grant.principalKind = .team ∧
            grant.principalId ∈ t.teamsOf principal.org.toCanonical id) ∧
        (∃ rp ∈ t.rolePermissions, rp.roleId = grant.roleId ∧
          rp.permissionKey = permission.asStr) ∧
        scope.coveredBy grant.scopeKind grant.scopeId = true := by
  unfold queryPermissions
  rcases principal.idString with _ | id
  · simp
  simp only [List.mem_toFinset, List.mem_filterMap, List.mem_dedup, Prod.exists,
    List.pair_mem_product, Permission.fromStr_eq_some, Option.some.injEq, exists_eq_left',
    Scope.coveredBy_iff]
  constructor
  · rintro ⟨_, ⟨grant, rp, ⟨hg, hrp⟩, h⟩, rfl⟩
    split_ifs at h with hc
    obtain ⟨hrole, horg, hnames, level, hlevel, hkind, hid⟩ := hc
    rw [Option.some.injEq] at h
    refine ⟨grant, hg, horg, hnames, ⟨rp, hrp, hrole, h⟩, ?_⟩
    rw [hkind, hid]
    exact hlevel
  · rintro ⟨grant, hg, horg, hnames, ⟨rp, hrp, hrole, hperm⟩, hlevel⟩
    exact ⟨_, ⟨grant, rp, ⟨hg, hrp⟩, if_pos ⟨hrole, horg, hnames, _, hlevel, rfl, rfl⟩⟩, hperm⟩

theorem queryPermissions_congr {p q : Principal} (horg : p.org = q.org)
    (hid : p.idString = q.idString) (scope : Scope) :
    t.queryPermissions p scope = t.queryPermissions q scope := by
  unfold queryPermissions
  rw [horg, hid]

theorem isActivePrincipal_iff (principal : Principal) :
    t.isActivePrincipal principal = true ↔ t.GoodStanding principal := by
  cases principal with
  | system org => simp [isActivePrincipal, GoodStanding]
  | user org user =>
    simp only [isActivePrincipal, GoodStanding, gt_iff_lt, decide_eq_true_eq,
      List.length_pos_iff_exists_mem, List.mem_filter, Prod.exists, List.pair_mem_product]
    constructor
    · rintro ⟨m, u, ⟨hm, hu⟩, hid, horg, huser, hms, hus⟩
      exact ⟨⟨m, hm, horg, huser, hms⟩, u, hu, hid.trans huser, hus⟩
    · rintro ⟨⟨m, hm, horg, huser, hms⟩, u, hu, hid, hus⟩
      exact ⟨m, u, ⟨hm, hu⟩, hid.trans huser.symm, horg, huser, hms, hus⟩
  | serviceAccount org sa =>
    simp only [isActivePrincipal, GoodStanding, gt_iff_lt, decide_eq_true_eq,
      List.length_pos_iff_exists_mem, List.mem_filter]
    constructor
    · rintro ⟨s, hs, horg, hid, hd⟩
      exact ⟨s, hs, hid, horg, hd⟩
    · rintro ⟨s, hs, hid, horg, hd⟩
      exact ⟨s, hs, horg, hid, hd⟩

end Tables

end Queries

section Grants

namespace Db

variable (db : Db)

/-- Where users and service accounts are told apart, the query confers what the grants confer. -/
theorem mem_queryPermissions_iff (hapart : db.KindsApart) {principal : Principal}
    (hstanding : db.GoodStanding principal) {scope : Scope} {permission : Permission} :
    permission ∈ db.queryPermissions principal scope ↔
      db.Confers principal permission scope := by
  rw [Tables.mem_queryPermissions]
  cases principal with
  | system org => simp [Principal.idString, Tables.Confers, Tables.Names]
  | user org user =>
    obtain ⟨-, u, hu, huid, -⟩ := hstanding
    simp only [Principal.idString, Option.some.injEq, exists_eq_left', Tables.Confers,
      Tables.Names, Principal.org]
    refine exists_congr fun grant => and_congr_right fun hg => and_congr_right fun _ =>
      and_congr_left fun _ => or_congr ?_ (and_congr_right fun _ => ?_)
    · constructor
      · rintro ⟨hkind | hkind, hid⟩
        · exact ⟨hkind, hid⟩
        · obtain ⟨s, hs, hsid⟩ := hapart.serviceAccount grant hg hkind
          exact absurd (huid.trans (hid.symm.trans hsid.symm)) (hapart.disjoint u hu s hs)
      · rintro ⟨hkind, hid⟩
        exact ⟨.inl hkind, hid⟩
    · rw [Tables.mem_teamsOf]
      constructor
      · rintro ⟨m, hm, hteam, huser, row, hrow, hid, ho⟩
        exact ⟨row, hrow, hid, ho, m, hm, hteam.trans hid.symm, huser⟩
      · rintro ⟨row, hrow, hid, ho, m, hm, hteam, huser⟩
        exact ⟨m, hm, hteam.trans hid, huser, row, hrow, hid, ho⟩
  | serviceAccount org sa =>
    obtain ⟨s, hs, hsid, -, -⟩ := hstanding
    simp only [Principal.idString, Option.some.injEq, exists_eq_left', Tables.Confers,
      Tables.Names, Principal.org]
    refine exists_congr fun grant => and_congr_right fun hg => and_congr_right fun _ =>
      and_congr_left fun _ => ?_
    constructor
    · rintro (⟨hkind | hkind, hid⟩ | ⟨-, hteam⟩)
      · obtain ⟨u, hu, huid⟩ := hapart.user grant hg hkind
        exact absurd (huid.trans (hid.trans hsid.symm)) (hapart.disjoint u hu s hs)
      · exact ⟨hkind, hid⟩
      · -- only a user is a member of a team
        obtain ⟨m, hm, -, huser, -⟩ := db.mem_teamsOf.1 hteam
        obtain ⟨u, hu, huid⟩ := List.mem_map.1 (db.teamMembers_user m hm)
        exact absurd (huid.trans (huser.trans hsid.symm)) (hapart.disjoint u hu s hs)
    · rintro ⟨hkind, hid⟩
      exact .inl ⟨.inr hkind, hid⟩

end Db

end Grants

section Decisions

namespace DecisionCache

variable (c : DecisionCache)

theorem permissions_of_empty (hempty : ∀ key, c.entries key = none) (t : Tables) (now later : ℕ)
    (principal : Principal) (scope : Scope) :
    (c.permissions (.ok t) now later principal scope).1
      = .ok (t.queryPermissions principal scope) := by
  unfold permissions
  rcases hid : principal.idString with _ | id
  · simp [key, hid, Tables.queryPermissions]
  · simp [key, hid, hit, hempty]

/-- The two entry points agree, whatever is in the cache and whatever the queries find. -/
theorem authorize_iff_effective (check : Check) (principal : Principal) (permission : Permission)
    (scope : Scope) :
    (c.authorize check principal permission scope).1 = .ok () ↔
      ∃ held, (c.effectivePermissions check principal scope).1 = .ok held ∧
        permission ∈ held := by
  unfold authorize effectivePermissions
  by_cases hsystem : principal.isSystem = true
  · simp only [if_pos hsystem, true_iff]
    exact ⟨_, rfl, List.mem_toFinset.2 permission.mem_all⟩
  by_cases horg : scope.orgId ≠ principal.org
  · simp [if_neg hsystem, if_pos horg]
  simp only [if_neg hsystem, if_neg horg]
  rcases check.standing with e | t
  · simp
  by_cases hactive : t.isActivePrincipal principal = false
  · simp [hactive]
  simp only [if_neg hactive]
  rcases c.permissions check.grants check.now check.later principal scope with ⟨e | held, c'⟩
  · simp
  by_cases hheld : permission ∈ held <;> simp [hheld]

theorem effectivePermissions_admits (db : Db) (hapart : db.KindsApart)
    (hempty : ∀ key, c.entries key = none) (now later : ℕ) (principal : Principal)
    (scope : Scope) :
    ∃ held, (c.effectivePermissions ⟨.ok db.toTables, .ok db.toTables, now, later⟩ principal
        scope).1 = .ok held ∧
      ∀ permission, permission ∈ held ↔ db.Admits principal permission scope := by
  unfold effectivePermissions Tables.Admits
  by_cases hsystem : principal.isSystem = true
  · simp only [if_pos hsystem]
    exact ⟨_, rfl, fun p => ⟨fun _ => .inl hsystem, fun _ => List.mem_toFinset.2 p.mem_all⟩⟩
  by_cases horg : scope.orgId = principal.org
  · by_cases hactive : db.isActivePrincipal principal = true
    · have hstanding := (db.isActivePrincipal_iff principal).1 hactive
      refine ⟨db.queryPermissions principal scope, ?_, fun p => ?_⟩
      · simp [if_neg hsystem, horg, hactive, c.permissions_of_empty hempty]
      · rw [db.mem_queryPermissions_iff hapart hstanding]
        simp [hsystem, horg, hstanding]
    · have hstanding := (db.isActivePrincipal_iff principal).not.1 hactive
      exact ⟨∅, by simp [if_neg hsystem, horg, hactive], by simp [hsystem, hstanding]⟩
  · exact ⟨∅, by simp [if_neg hsystem, horg], by simp [hsystem, horg]⟩

/-- With nothing in the cache, a check passes exactly when the principal is the system, or is in
good standing in the organization of the scope and a grant confers the permission on it; and the
effective permissions are the ones that pass. -/
theorem authorize_iff_admits (db : Db) (hapart : db.KindsApart)
    (hempty : ∀ key, c.entries key = none) (now later : ℕ) (principal : Principal)
    (scope : Scope) :
    (∀ permission, (c.authorize ⟨.ok db.toTables, .ok db.toTables, now, later⟩ principal permission
        scope).1 = .ok () ↔ db.Admits principal permission scope) ∧
      ∃ held, (c.effectivePermissions ⟨.ok db.toTables, .ok db.toTables, now, later⟩ principal
          scope).1 = .ok held ∧
        ∀ permission, permission ∈ held ↔
          (c.authorize ⟨.ok db.toTables, .ok db.toTables, now, later⟩ principal permission
            scope).1 = .ok () := by
  obtain ⟨held, heff, hheld⟩ :=
    c.effectivePermissions_admits db hapart hempty now later principal scope
  have hiff : ∀ permission, (c.authorize ⟨.ok db.toTables, .ok db.toTables, now, later⟩ principal
      permission scope).1 = .ok () ↔ permission ∈ held := by
    intro permission
    rw [authorize_iff_effective, heff]
    simp
  exact ⟨fun p => (hiff p).trans (hheld p), held, heff, fun p => (hiff p).symm⟩

end DecisionCache

end Decisions

section Transparency

/-- The calls present a scope's own identifier with one chain of ancestors: no two of them, for one
organization and principal, name scopes of one kind and identifier that differ. -/
def OneLineage (calls : List Lookup) : Prop :=
  ∀ l ∈ calls, ∀ l' ∈ calls, l.principal.idString ≠ none → l.principal.org = l'.principal.org →
    l.principal.idString = l'.principal.idString → l.scope.kind = l'.scope.kind →
    l.scope.ownId = l'.scope.ownId → l.scope = l'.scope

theorem Scope.exists_level_of_ne {s s' : Scope} (hkind : s.kind = s'.kind)
    (hid : s.ownId = s'.ownId) (hne : s ≠ s') : ∃ level ∈ s.lineage, level ∉ s'.lineage := by
  cases s with
  | org o =>
    cases s' with
    | org o' =>
      rw [Id.toCanonical_inj hid] at hne
      exact absurd rfl hne
    | project _ _ => cases hkind
    | pipeline _ _ _ => cases hkind
  | project o p =>
    cases s' with
    | org _ => cases hkind
    | project o' p' =>
      refine ⟨(.org, o.toCanonical), by simp [lineage], fun hmem => hne ?_⟩
      have ho : o.toCanonical = o'.toCanonical := by simpa [lineage] using hmem
      rw [Id.toCanonical_inj hid, Id.toCanonical_inj ho]
    | pipeline _ _ _ => cases hkind
  | pipeline o p l =>
    cases s' with
    | org _ => cases hkind
    | project _ _ => cases hkind
    | pipeline o' p' l' =>
      by_cases hp : p = p'
      · refine ⟨(.org, o.toCanonical), by simp [lineage], fun hmem => hne ?_⟩
        have ho : o.toCanonical = o'.toCanonical := by simpa [lineage] using hmem
        rw [Id.toCanonical_inj hid, Id.toCanonical_inj ho, hp]
      · refine ⟨(.project, p.toCanonical), by simp [lineage], fun hmem => hp ?_⟩
        have hpp : p.toCanonical = p'.toCanonical := by simpa [lineage] using hmem
        exact Id.toCanonical_inj hpp

namespace DecisionCache

theorem key_eq_some {principal : Principal} {scope : Scope} {k : CacheKey} :
    key principal scope = some k ↔ ∃ id, principal.idString = some id ∧
      k = (principal.org.toCanonical, id, scope.kind.asStr, scope.ownId) := by
  unfold key
  simp only [Option.map_eq_some_iff, eq_comm (a := k)]

theorem key_eq_key_iff {p q : Principal} {s s' : Scope} :
    (∃ k, key p s = some k ∧ key q s' = some k) ↔
      p.idString ≠ none ∧ p.org = q.org ∧ p.idString = q.idString ∧ s.kind = s'.kind ∧
        s.ownId = s'.ownId := by
  constructor
  · rintro ⟨k, h, h'⟩
    obtain ⟨id, hp, rfl⟩ := key_eq_some.1 h
    obtain ⟨id', hq, he⟩ := key_eq_some.1 h'
    simp only [Prod.mk.injEq] at he
    obtain ⟨horg, rfl, hkind, hown⟩ := he
    exact ⟨by simp [hp], Id.toCanonical_inj horg, hp.trans hq.symm, ScopeKind.asStr_inj hkind,
      hown⟩
  · rintro ⟨hne, horg, hid, hkind, hown⟩
    obtain ⟨id, hp⟩ := Option.ne_none_iff_exists'.1 hne
    refine ⟨_, key_eq_some.2 ⟨id, hp, rfl⟩, key_eq_some.2 ⟨id, hid ▸ hp, ?_⟩⟩
    rw [horg, hkind, hown]

/-- The cache holds the answers of `table`, all of its generation and none older than `start`. -/
def Holds (c : DecisionCache) (start : ℕ) (table : CacheKey → Option (Finset Permission)) : Prop :=
  ∀ k, (c.entries k).map (·.permissions) = table k ∧
    ∀ e, c.entries k = some e → e.generation = c.generation ∧ start ≤ e.filledAt

theorem Holds.hit {c : DecisionCache} {start : ℕ} {table : CacheKey → Option (Finset Permission)}
    (h : c.Holds start table) {now : ℕ} (hnow : now < start + cacheTtl) (k : CacheKey) :
    c.hit k c.generation now = table k := by
  obtain ⟨hsame, hlive⟩ := h k
  unfold DecisionCache.hit
  rcases he : c.entries k with _ | e
  · simp [← hsame, he]
  · obtain ⟨hgen, hstart⟩ := hlive e he
    have hage : now - e.filledAt < cacheTtl := by
      have : 0 < cacheTtl := by decide
      omega
    simp [← hsame, he, hgen, hage]

theorem Holds.fill {c : DecisionCache} {start : ℕ} {table : CacheKey → Option (Finset Permission)}
    (h : c.Holds start table) {later : ℕ} (hlater : start ≤ later) (k : CacheKey)
    (held : Finset Permission) :
    (c.fill k ⟨held, c.generation, later⟩).Holds start (Function.update table k (some held)) := by
  intro k'
  by_cases hk : k' = k
  · subst hk
    simp [DecisionCache.fill, hlater]
  · simpa [DecisionCache.fill, Function.update_of_ne hk] using h k'

end DecisionCache

def Lookup.key (l : Lookup) : Option CacheKey := DecisionCache.key l.principal l.scope

def Lookup.answer (t : Tables) (l : Lookup) : Finset Permission :=
  t.queryPermissions l.principal l.scope

namespace DecisionCache

/-- Within the lifetime of its entries, the cache is a table of remembered answers. -/
theorem answers_eq_memo (t : Tables) (start : ℕ) : ∀ (calls : List Lookup) (c : DecisionCache)
    (table : CacheKey → Option (Finset Permission)),
    (∀ l ∈ calls, l.now < start + cacheTtl ∧ start ≤ l.later) → c.Holds start table →
      c.answers (.ok t) calls = (Memo.answers Lookup.key (Lookup.answer t) table calls).map .ok
  | [], _, _, _, _ => rfl
  | l :: calls, c, table, hwithin, h => by
    obtain ⟨hnow, hlater⟩ := hwithin l List.mem_cons_self
    have hrest := fun l hl => hwithin l (List.mem_cons_of_mem _ hl)
    simp only [answers, Memo.answers, List.map_cons]
    rcases hk : l.key with _ | k
    · have hid : l.principal.idString = none := by
        simpa [Lookup.key, key] using hk
      have hnone : l.answer t = ∅ := by
        simp [Lookup.answer, Tables.queryPermissions, hid]
      rw [Memo.lookup_none hk, hnone]
      rw [Lookup.key] at hk
      simp only [permissions, hk]
      rw [answers_eq_memo t start calls c table hrest h]
    · have hhit := h.hit hnow k
      rcases ht : table k with _ | held
      · rw [Memo.lookup_miss hk ht]
        rw [Lookup.key] at hk
        rw [ht] at hhit
        simp only [permissions, hk, hhit]
        rw [answers_eq_memo t start calls _ _ hrest (h.fill hlater k _)]
        rfl
      · rw [Memo.lookup_hit hk ht]
        rw [Lookup.key] at hk
        rw [ht] at hhit
        simp only [permissions, hk, hhit]
        rw [answers_eq_memo t start calls c table hrest h]

theorem empty_holds (start : ℕ) : empty.Holds start fun _ => none :=
  fun _ => ⟨rfl, fun _ h => absurd h (by simp [empty])⟩

/-- From an empty cache, on one database, the answers are those of the query exactly when calls that
share a key have one answer. -/
theorem answers_empty_iff {start : ℕ} {calls : List Lookup}
    (hwithin : ∀ l ∈ calls, l.now < start + cacheTtl ∧ start ≤ l.later) (t : Tables) :
    (empty.answers (.ok t) calls
        = calls.map fun l => .ok (t.queryPermissions l.principal l.scope)) ↔
      Memo.OneAnswer Lookup.key (Lookup.answer t) calls := by
  have hmap : (calls.map fun l => (.ok (t.queryPermissions l.principal l.scope) :
      Except AuthzError (Finset Permission))) = (calls.map (Lookup.answer t)).map .ok := by
    rw [List.map_map]
    rfl
  have hok : Function.Injective (Except.ok : Finset Permission → Except AuthzError _) :=
    fun _ _ h => Except.ok.inj h
  rw [answers_eq_memo t start calls empty _ hwithin (empty_holds start), hmap,
    hok.list_map.eq_iff, Memo.answers_empty_iff]

end DecisionCache

/-- One organization with one user, to whom one role with one permission is granted at `level`. -/
def Db.granting (org : OrgId) (principalId : String) (level : ScopeKind × String) : Db where
  organizations := [org.toCanonical]
  users := [⟨principalId, .active⟩]
  memberships := [⟨org.toCanonical, principalId, .active⟩]
  teams := []
  teamMembers := []
  permissions := [Permission.orgRead.asStr]
  roles := [⟨"reader", none, "reader", "Reader", "", true, 0⟩]
  rolePermissions := [⟨"reader", Permission.orgRead.asStr⟩]
  serviceAccounts := []
  roleAssignments := [⟨"grant", org.toCanonical, .user, principalId, "reader", level.1, level.2⟩]
  users_key := by simp
  organizations_key := by simp
  memberships_key := by simp
  memberships_org := by simp
  memberships_user := by simp
  teams_key := by simp
  teams_org := by simp
  teamMembers_key := by simp
  teamMembers_team := by simp
  teamMembers_user := by simp
  permissions_key := by simp
  roles_key := by simp
  roles_name := by simp
  roles_check := by simp
  roles_org := by simp
  rolePermissions_key := by simp
  rolePermissions_role := by simp
  rolePermissions_permission := by simp
  serviceAccounts_key := by simp
  serviceAccounts_org := by simp
  roleAssignments_key := by simp
  roleAssignments_once := by simp
  roleAssignments_org := by simp
  roleAssignments_role := by simp

theorem Db.orgRead_granting {org : OrgId} {principalId : String} {level : ScopeKind × String}
    {principal : Principal} {scope : Scope} (horg : principal.org = org)
    (hid : principal.idString = some principalId) :
    .orgRead ∈ (granting org principalId level).queryPermissions principal scope ↔
      level ∈ scope.lineage := by
  rw [Tables.mem_queryPermissions, hid, horg]
  simp [granting, Scope.coveredBy_iff]

theorem Db.granting_apart (org : OrgId) (principalId : String) (level : ScopeKind × String) :
    (granting org principalId level).KindsApart where
  disjoint := by simp [granting]
  user := by simp [granting]
  serviceAccount := by simp [granting]

/-- Within the lifetime of an entry and on an unchanging database, the cache changes no answer, on
any database, if and only if the calls present every scope with one chain of ancestors. -/
theorem cache_transparent_iff (start : ℕ) {calls : List Lookup}
    (hwithin : ∀ l ∈ calls, l.now < start + cacheTtl ∧ start ≤ l.later) :
    (∀ db : Db, DecisionCache.empty.answers (.ok db.toTables) calls
        = calls.map fun l => .ok (db.queryPermissions l.principal l.scope)) ↔
      OneLineage calls := by
  simp only [DecisionCache.answers_empty_iff hwithin]
  constructor
  · intro h l hl l' hl' hne horg hid hkind hown
    by_contra hscope
    obtain ⟨level, hlevel, hno⟩ := Scope.exists_level_of_ne hkind hown hscope
    obtain ⟨id, hsome⟩ := Option.ne_none_iff_exists'.1 hne
    obtain ⟨k, hk, hk'⟩ := DecisionCache.key_eq_key_iff.2 ⟨hne, horg, hid, hkind, hown⟩
    have hheld : .orgRead ∈ l.answer (Db.granting l.principal.org id level).toTables :=
      (Db.orgRead_granting rfl hsome).2 hlevel
    rw [h (.granting l.principal.org id level) l hl l' hl' k hk hk'] at hheld
    exact hno ((Db.orgRead_granting horg.symm (hid ▸ hsome)).1 hheld)
  · intro h db l hl l' hl' k hk hk'
    obtain ⟨hne, horg, hid, hkind, hown⟩ := DecisionCache.key_eq_key_iff.1 ⟨k, hk, hk'⟩
    unfold Lookup.answer
    rw [h l hl l' hl' hne horg hid hkind hown]
    exact db.queryPermissions_congr horg hid _

def sampleUlid : Ulid :=
  .ofText "01ARZ3NDEKTSV4RRFFQ69G5FAV" rfl (by decide +kernel) (by decide +kernel)

def otherUlid : Ulid :=
  .ofText "01BX5ZZKBKACTAV9WEVGEMMVRZ" rfl (by decide +kernel) (by decide +kernel)

def sampleUser : Principal := .user ⟨sampleUlid⟩ ⟨sampleUlid⟩

/-- The same pipeline, presented as part of the project or of another one. -/
def samplePipeline (project : Ulid) : Scope := .pipeline ⟨sampleUlid⟩ ⟨project⟩ ⟨sampleUlid⟩

/-- A role on the project. -/
def sampleDb : Db :=
  .granting ⟨sampleUlid⟩ sampleUlid.text (.project, sampleUlid.text)

theorem sample_orgRead (scope : Scope) :
    .orgRead ∈ sampleDb.queryPermissions sampleUser scope ↔
      (.project, sampleUlid.text) ∈ scope.lineage := by
  unfold sampleDb
  exact Db.orgRead_granting rfl rfl

theorem samplePipeline_key (p q : Ulid) :
    ∃ k, DecisionCache.key sampleUser (samplePipeline p) = some k ∧
      DecisionCache.key sampleUser (samplePipeline q) = some k :=
  ⟨_, rfl, rfl⟩

/-- A pipeline asked for under its own project and then under another one: the second answer is the
first one's. -/
theorem cache_changes_answer :
    let calls : List Lookup :=
      [⟨sampleUser, samplePipeline sampleUlid, 0, 1⟩, ⟨sampleUser, samplePipeline otherUlid, 2, 3⟩]
    (∀ l ∈ calls, l.now < 0 + cacheTtl ∧ 0 ≤ l.later) ∧
      DecisionCache.empty.answers (.ok sampleDb.toTables) calls
        ≠ calls.map fun l => .ok (sampleDb.queryPermissions l.principal l.scope) := by
  intro calls
  have hwithin : ∀ l ∈ calls, l.now < 0 + cacheTtl ∧ 0 ≤ l.later := by
    simp [calls, cacheTtl]
  refine ⟨hwithin, fun h => ?_⟩
  obtain ⟨k, hk, hk'⟩ := samplePipeline_key sampleUlid otherUlid
  have hsame : sampleDb.queryPermissions sampleUser (samplePipeline sampleUlid)
      = sampleDb.queryPermissions sampleUser (samplePipeline otherUlid) :=
    (DecisionCache.answers_empty_iff hwithin sampleDb.toTables).1 h _ List.mem_cons_self _
      (List.mem_cons_of_mem _ List.mem_cons_self) k hk hk'
  have hheld := (sample_orgRead (samplePipeline sampleUlid)).2
    (List.mem_cons_of_mem _ List.mem_cons_self)
  rw [hsame, sample_orgRead] at hheld
  revert hheld
  decide +kernel

/-- Two calls for one pipeline of one project. -/
theorem cache_transparent_same :
    (∀ db : Db, DecisionCache.empty.answers (.ok db.toTables)
          [⟨sampleUser, samplePipeline sampleUlid, 0, 1⟩,
            ⟨sampleUser, samplePipeline sampleUlid, 2, 3⟩]
        = [⟨sampleUser, samplePipeline sampleUlid, 0, 1⟩,
            ⟨sampleUser, samplePipeline sampleUlid, 2, 3⟩].map fun l : Lookup =>
              .ok (db.queryPermissions l.principal l.scope)) ↔
      OneLineage [⟨sampleUser, samplePipeline sampleUlid, 0, 1⟩,
        ⟨sampleUser, samplePipeline sampleUlid, 2, 3⟩] :=
  cache_transparent_iff 0 (by simp [cacheTtl])

theorem sample_admits : sampleDb.Admits sampleUser .orgRead (samplePipeline sampleUlid) := by
  refine .inr ⟨rfl, ⟨⟨_, List.mem_cons_self, rfl, rfl, rfl⟩, _, List.mem_cons_self, rfl, rfl⟩, ?_⟩
  refine ⟨_, List.mem_cons_self, rfl, .inl ⟨rfl, rfl⟩, ⟨_, List.mem_cons_self, rfl, rfl⟩, ?_⟩
  exact Scope.coveredBy_iff.2 (List.mem_cons_of_mem _ List.mem_cons_self)

/-- A role on a project is a role on its pipelines. -/
theorem authorize_sample :
    (DecisionCache.empty.authorize ⟨.ok sampleDb.toTables, .ok sampleDb.toTables, 0, 1⟩ sampleUser
      .orgRead (samplePipeline sampleUlid)).1 = .ok () :=
  ((DecisionCache.empty.authorize_iff_admits sampleDb (Db.granting_apart _ _ _) (fun _ => rfl) 0 1
    sampleUser (samplePipeline sampleUlid)).1 .orgRead).2 sample_admits

end Transparency

end Jetrun
