import Jetrun.Migrations
import Jetrun.Proofs.Tenancy

/-!
# What a deletion takes along

Deleting an organization takes every row that it owns, since most rows name it and the others belong
to a team or a role that does. It takes no row of anybody else's exactly if no such row refers to
one of its own. Deleting a user takes what is the user's own and leaves the grants, which are to an
identifier and no longer count for anybody.
-/

namespace Jetrun

namespace Migrations

open Referential

variable {constraints : List SqlRow → Bool} {rows after : List SqlRow} {r p : SqlRow}

section Keys

theorem forgettable : (schema constraints).Forgettable := by
  have hcolumns : ∀ fk ∈ foreignKeys, fk.onDelete = .setNull →
      fk.column ∉ primaryKey fk.child := by decide
  exact hcolumns

theorem tables_of_refers {action : OnDelete} (h : (schema constraints).Refers r p action) :
    ∃ fk ∈ foreignKeys, fk.onDelete = action ∧ fk.child = r.table ∧ fk.parent = p.table := by
  obtain ⟨fk, hfk, haction, htable, v, -, hid⟩ := h
  exact ⟨fk, hfk, haction, htable.symm, (congrArg Prod.fst hid).symm⟩

/-- A reference to a row that has an `id`. -/
theorem refers_of_value {fk : ForeignKey Table String} (hfk : fk ∈ foreignKeys)
    (hr : r.table = fk.child) (hp : p.table = fk.parent) (hkey : primaryKey fk.parent = ["id"])
    {v : SqlValue} (hv : r.value fk.column = some v) (hid : p.value "id" = some v) :
    (schema constraints).Refers r p fk.onDelete := by
  refine ⟨fk, hfk, rfl, hr, v, hv, Prod.ext hp ?_⟩
  show (primaryKey p.table).map p.value = [some v]
  rw [hp, hkey, List.map_cons, List.map_nil, hid]

theorem value_of_refersBy {fk : ForeignKey Table String} (hkey : primaryKey fk.parent = ["id"])
    (h : (schema constraints).RefersBy r p fk) :
    p.table = fk.parent ∧ ∃ v, r.value fk.column = some v ∧ p.value "id" = some v := by
  obtain ⟨-, v, hv, hid⟩ := h
  have hp : p.table = fk.parent := congrArg Prod.fst hid
  have hvalue : (primaryKey p.table).map p.value = [some v] := congrArg Prod.snd hid
  rw [hp, hkey, List.map_cons, List.map_nil, List.cons.injEq] at hvalue
  exact ⟨hp, v, hv, hvalue.1⟩

/-- What a reference by `id` leads to. -/
theorem exists_target (h : (schema constraints).Integral rows)
    (hr : r ∈ rows) {fk : ForeignKey Table String} (hfk : fk ∈ foreignKeys)
    (htable : r.table = fk.child) (hkey : primaryKey fk.parent = ["id"]) {v : SqlValue}
    (hv : r.value fk.column = some v) :
    ∃ p ∈ rows, p.table = fk.parent ∧ p.value "id" = some v := by
  obtain ⟨p, hp, hid⟩ := h.refs r hr fk hfk htable v hv
  obtain ⟨htable, v', hv', hid⟩ := value_of_refersBy hkey ⟨htable, v, hv, hid⟩
  rw [hv] at hv'
  exact ⟨p, hp, htable, hid.trans hv'.symm⟩

end Keys

section Reach

/-- A kind of tables with whatever cascades from them. -/
def Closed (K : Table → Bool) : Prop :=
  ∀ fk ∈ foreignKeys, fk.onDelete = .cascade → K fk.parent → K fk.child

instance (K : Table → Bool) : Decidable (Closed K) :=
  inferInstanceAs (Decidable (∀ fk ∈ foreignKeys, _))

variable {K : Table → Bool} {table : Table} {id : String}

/-- The rows that a deletion by `id` takes. -/
def Taken (constraints : List SqlRow → Bool) (rows : List SqlRow) (table : Table) (id : String) :
    SqlRow → Prop :=
  Doomed (schema constraints) rows fun r =>
    r.table = table ∧ decide (r.value "id" = some (.text id))

theorem Taken.closed (hK : Closed K) (htable : K table)
    (h : Taken constraints rows table id r) : K r.table := by
  refine h.least (K := fun r => K r.table) (fun r _ ht => ht.1.symm ▸ htable) ?_
  rintro r - p - href hp
  obtain ⟨fk, hfk, haction, hchild, hparent⟩ := tables_of_refers href
  exact hchild ▸ hK fk hfk haction (hparent.symm ▸ hp)

variable (constraints rows table id) in
/-- A deletion that takes neither permissions nor records succeeds. -/
theorem deleteById_ok (hK : Closed K) (htable : K table) (hlog : K .auditLog = false)
    (hcatalog : K .permissions = false) :
    ∃ after, deleteById constraints rows table id = .ok after := by
  refine ⟨_, delete_ok_iff.2 ⟨fun p hp => ?_, rfl⟩⟩
  have hpK : K p.table := Taken.closed hK htable hp
  constructor
  · refine decide_eq_false fun hat => ?_
    rw [hat, hlog] at hpK
    cases hpK
  · intro r _ href
    obtain ⟨fk, hfk, haction, -, hparent⟩ := tables_of_refers href
    have honly : ∀ fk ∈ foreignKeys, fk.onDelete = .restrict → fk.parent = .permissions := by decide
    rw [← hparent, honly fk hfk haction, hcatalog] at hpK
    cases hpK

/-- Unless users are deleted, the rows that stay are as they were. -/
theorem cleared_of_no_user (hK : Closed K) (htable : K table) (husers : K .users = false) :
    (schema constraints).cleared ((schema constraints).doomed rows (Schema.targets rows table
      fun r => r.value "id" = some (.text id))) r = r := by
  refine cleared_of_forall fun p hp href => ?_
  have hpK : K p.table := Taken.closed hK htable (mem_doomed.1 hp)
  obtain ⟨fk, hfk, haction, -, hparent⟩ := tables_of_refers href
  have honly : ∀ fk ∈ foreignKeys, fk.onDelete = .setNull → fk.parent = .users := by decide
  rw [← hparent, honly fk hfk haction, husers] at hpK
  cases hpK

end Reach

section Sample

/-- Two organizations with one member, who holds a built-in role in the second. -/
def sampleRows : List SqlRow :=
  let a : Option SqlValue := some (.text sampleUlid.text)
  let b : Option SqlValue := some (.text otherUlid.text)
  let t (s : String) : Option SqlValue := some (.text s)
  [⟨.organizations, [("id", a)]⟩, ⟨.organizations, [("id", b)]⟩,
    ⟨.users, [("id", a), ("status", t "active")]⟩,
    ⟨.memberships, [("org_id", a), ("user_id", a), ("status", t "active")]⟩,
    ⟨.memberships, [("org_id", b), ("user_id", a), ("status", t "active")]⟩,
    ⟨.teams, [("id", t "t1"), ("org_id", a)]⟩,
    ⟨.teamMembers, [("team_id", t "t1"), ("user_id", a)]⟩,
    ⟨.permissions, [("key", t "run.read")]⟩,
    ⟨.roles, [("id", t "r1"), ("org_id", none), ("key", t "viewer"), ("name", t "Viewer"),
      ("description", t ""), ("is_system", some (.integer 1)), ("created_at", some (.integer 0))]⟩,
    ⟨.rolePermissions, [("role_id", t "r1"), ("permission_key", t "run.read")]⟩,
    ⟨.roleAssignments, [("id", t "g1"), ("org_id", b), ("principal_kind", t "user"),
      ("principal_id", a), ("role_id", t "r1"), ("scope_kind", t "org"), ("scope_id", b),
      ("granted_by", a)]⟩,
    ⟨.auditLog, [("id", t "l1"), ("org_id", a), ("action", t "org.create")]⟩]

def anything (_ : List SqlRow) : Bool := true

theorem sample_integral : (schema anything).Integral sampleRows := by decide +kernel

end Sample

section Tenant

variable {org : String}

/-- The tables with a column for the organization that owns the row. -/
def scopedTables : List Table :=
  [.memberships, .teams, .roles, .serviceAccounts, .apiTokens, .roleAssignments, .invitations,
    .projects, .pipelines, .runs, .steps, .secrets, .workers]

theorem owns_iff : Owns rows org r ↔
    (r.table = .organizations ∧ r.value "id" = some (.text org)) ∨
    (r.table = .teamMembers ∧ OwnedThrough rows org r .teams "team_id") ∨
    (r.table = .rolePermissions ∧ OwnedThrough rows org r .roles "role_id") ∨
    (r.table ∈ scopedTables ∧ r.value "org_id" = some (.text org)) := by
  unfold Owns
  cases r.table <;> simp [scopedTables]

instance (org : String) (r : SqlRow) : Decidable (Owns rows org r) :=
  have (table : Table) (column : String) : Decidable (OwnedThrough rows org r table column) :=
    inferInstanceAs (Decidable (∃ p ∈ rows, _ ∧ _ ∧ ∃ v ∈ p.value "id", _))
  decidable_of_iff _ owns_iff.symm

instance (org : String) : Decidable (Coherent constraints rows org) :=
  inferInstanceAs (Decidable (∀ r ∈ rows, ∀ p ∈ rows, _ → _ → _))

theorem sample_coherent : Coherent anything sampleRows sampleUlid.text := by decide +kernel

/-- What an organization may take along. -/
def tenantTables (table : Table) : Bool :=
  table ∉ [Table.users, .credentials, .permissions, .auditLog]

theorem tenantTables_closed : Closed tenantTables := by decide

theorem taken_of_scoped (h : (schema constraints).Integral rows) (hr : r ∈ rows)
    (htable : r.table ∈ scopedTables) (horg : r.value "org_id" = some (.text org)) :
    Taken constraints rows .organizations org r := by
  have hkeys : ∀ table ∈ scopedTables,
      ⟨table, "org_id", .organizations, .cascade⟩ ∈ foreignKeys := by decide
  obtain ⟨p, hp, hptable, hpid⟩ := exists_target h hr (hkeys _ htable) rfl rfl horg
  have htarget : Taken constraints rows .organizations org p :=
    .target hp ⟨hptable, decide_eq_true hpid⟩
  exact .cascade hr (refers_of_value (hkeys _ htable) rfl hptable rfl horg hpid) htarget

theorem taken_through (h : (schema constraints).Integral rows) (hr : r ∈ rows)
    {table : Table} {column : String} (hscoped : table ∈ scopedTables)
    (hkey : primaryKey table = ["id"]) (hfk : ⟨r.table, column, table, .cascade⟩ ∈ foreignKeys)
    (hown : OwnedThrough rows org r table column) :
    Taken constraints rows .organizations org r := by
  obtain ⟨p, hp, rfl, horg, v, hpid, hv⟩ := hown
  exact .cascade hr (refers_of_value hfk rfl rfl hkey hv hpid) (taken_of_scoped h hp hscoped horg)

/-- A deletion takes all that the organization owns. -/
theorem taken_of_owns (h : (schema constraints).Integral rows) (hr : r ∈ rows)
    (hown : Owns rows org r) : Taken constraints rows .organizations org r := by
  rcases owns_iff.1 hown with ⟨htable, hid⟩ | ⟨htable, hthrough⟩ | ⟨htable, hthrough⟩ |
    ⟨htable, horg⟩
  · exact .target hr ⟨htable, decide_eq_true hid⟩
  · exact taken_through h hr (by decide) rfl (by rw [htable]; decide) hthrough
  · exact taken_through h hr (by decide) rfl (by rw [htable]; decide) hthrough
  · exact taken_of_scoped h hr htable horg

theorem owns_of_taken (hcoherent : Coherent constraints rows org)
    (h : Taken constraints rows .organizations org r) : Owns rows org r := by
  refine h.least (K := Owns rows org) (fun r _ ht => ?_) hcoherent
  exact owns_iff.2 (.inl ⟨ht.1, of_decide_eq_true ht.2⟩)

/-- What stays is every row that is not taken, as it was. -/
theorem mem_after (hdel : deleteById constraints rows .organizations org = .ok after) :
    r ∈ after ↔ r ∈ rows ∧ ¬Taken constraints rows .organizations org r := by
  rw [mem_delete hdel]
  constructor
  · rintro ⟨r', hr', hstays, rfl⟩
    rw [cleared_of_no_user tenantTables_closed rfl rfl]
    exact ⟨hr', hstays⟩
  · rintro ⟨hr, hstays⟩
    exact ⟨r, hr, hstays, (cleared_of_no_user tenantTables_closed rfl rfl).symm⟩

/-- An organization can always be deleted. All of its rows go, the others stay as they are if none
of them refers to one that goes, and no reference is left dangling. -/
theorem tenant_deleted (h : (schema constraints).Integral rows) (org : String) :
    ∃ after, deleteById constraints rows .organizations org = .ok after ∧
      (schema constraints).Integral after ∧ (∀ r ∈ after, r ∈ rows ∧ ¬Owns rows org r) ∧
      ((∀ r ∈ rows, ¬Owns rows org r → r ∈ after) ↔ Coherent constraints rows org) := by
  obtain ⟨after, hdel⟩ := deleteById_ok constraints rows .organizations org tenantTables_closed
    rfl rfl rfl
  refine ⟨after, hdel, h.delete forgettable hdel, fun r hr => ?_, fun hkept => ?_,
    fun hcoherent r hr hnot => ?_⟩
  · obtain ⟨hr, hstays⟩ := (mem_after hdel).1 hr
    exact ⟨hr, fun hown => hstays (taken_of_owns h hr hown)⟩
  · intro r hr p hp href hown
    by_contra hnot
    exact ((mem_after hdel).1 (hkept r hr hnot)).2 (.cascade hr href (taken_of_owns h hp hown))
  · exact (mem_after hdel).2 ⟨hr, fun htaken => hnot (owns_of_taken hcoherent htaken)⟩

theorem sample_tenant_deleted : ∃ after,
    deleteById anything sampleRows .organizations sampleUlid.text = .ok after ∧
      (schema anything).Integral after ∧
      (∀ r ∈ after, r ∈ sampleRows ∧ ¬Owns sampleRows sampleUlid.text r) ∧
      ((∀ r ∈ sampleRows, ¬Owns sampleRows sampleUlid.text r → r ∈ after) ↔
        Coherent anything sampleRows sampleUlid.text) :=
  tenant_deleted sample_integral sampleUlid.text

end Tenant

end Migrations

section Reading

variable {rows : List SqlRow} {r : SqlRow}

theorem SqlRow.text_eq_some {column s : String} :
    SqlRow.text r column = some s ↔ r.value column = some (.text s) := by
  unfold SqlRow.text
  split <;> simp_all

namespace Tables

theorem mem_select {α : Type} {table : Table} {read : SqlRow → Option α} {x : α} :
    x ∈ select rows table read ↔ ∃ r ∈ rows, r.table = table ∧ read r = some x := by
  simp [select, and_assoc]

theorem userRow_values {u : UserRow} (h : userRow r = some u) :
    r.value "id" = some (.text u.id) := by
  simp only [userRow, Option.bind_eq_bind, Option.bind_eq_some_iff] at h
  obtain ⟨id, hid, _, -, ⟨⟩⟩ := h
  exact SqlRow.text_eq_some.1 hid

theorem membershipRow_values {m : MembershipRow} (h : membershipRow r = some m) :
    r.value "org_id" = some (.text m.orgId) ∧ r.value "user_id" = some (.text m.userId) := by
  simp only [membershipRow, Option.bind_eq_bind, Option.bind_eq_some_iff] at h
  obtain ⟨org, horg, user, huser, _, -, ⟨⟩⟩ := h
  exact ⟨SqlRow.text_eq_some.1 horg, SqlRow.text_eq_some.1 huser⟩

theorem teamRow_values {t : TeamRow} (h : teamRow r = some t) :
    r.value "id" = some (.text t.id) ∧ r.value "org_id" = some (.text t.orgId) := by
  simp only [teamRow, Option.bind_eq_bind, Option.bind_eq_some_iff] at h
  obtain ⟨id, hid, org, horg, ⟨⟩⟩ := h
  exact ⟨SqlRow.text_eq_some.1 hid, SqlRow.text_eq_some.1 horg⟩

theorem teamMemberRow_values {m : TeamMemberRow} (h : teamMemberRow r = some m) :
    r.value "team_id" = some (.text m.teamId) ∧ r.value "user_id" = some (.text m.userId) := by
  simp only [teamMemberRow, Option.bind_eq_bind, Option.bind_eq_some_iff] at h
  obtain ⟨team, hteam, user, huser, ⟨⟩⟩ := h
  exact ⟨SqlRow.text_eq_some.1 hteam, SqlRow.text_eq_some.1 huser⟩

theorem roleRow_values {role : RoleRow} (h : roleRow r = some role) :
    r.value "id" = some (.text role.id) ∧ SqlRow.text r "org_id" = role.orgId := by
  simp only [roleRow, Option.bind_eq_bind, Option.bind_eq_some_iff] at h
  obtain ⟨id, hid, _, -, _, -, _, -, _, -, _, -, ⟨⟩⟩ := h
  exact ⟨SqlRow.text_eq_some.1 hid, rfl⟩

theorem rolePermissionRow_values {rp : RolePermissionRow} (h : rolePermissionRow r = some rp) :
    r.value "role_id" = some (.text rp.roleId) := by
  simp only [rolePermissionRow, Option.bind_eq_bind, Option.bind_eq_some_iff] at h
  obtain ⟨role, hrole, _, -, ⟨⟩⟩ := h
  exact SqlRow.text_eq_some.1 hrole

theorem serviceAccountRow_values {s : ServiceAccountRow} (h : serviceAccountRow r = some s) :
    r.value "org_id" = some (.text s.orgId) := by
  simp only [serviceAccountRow, Option.bind_eq_bind, Option.bind_eq_some_iff] at h
  obtain ⟨_, -, org, horg, ⟨⟩⟩ := h
  exact SqlRow.text_eq_some.1 horg

theorem roleAssignmentRow_values {a : RoleAssignmentRow} (h : roleAssignmentRow r = some a) :
    r.value "org_id" = some (.text a.orgId) ∧ r.value "role_id" = some (.text a.roleId) := by
  simp only [roleAssignmentRow, Option.bind_eq_bind, Option.bind_eq_some_iff] at h
  obtain ⟨_, -, org, horg, _, -, _, -, role, hrole, _, -, _, -, ⟨⟩⟩ := h
  exact ⟨SqlRow.text_eq_some.1 horg, SqlRow.text_eq_some.1 hrole⟩

end Tables

end Reading

namespace Migrations

open Referential

variable {constraints : List SqlRow → Bool} {rows after : List SqlRow} {r p : SqlRow}

section OtherTenants

open Tables

variable {org other : String} (h : (schema constraints).Integral rows)
  (hcoherent : Coherent constraints rows org)
  (hdel : deleteById constraints rows .organizations org = .ok after)

theorem eq_of_id (h : (schema constraints).Integral rows) (hr : r ∈ rows) (hp : p ∈ rows)
    (htable : r.table = p.table) (hkey : primaryKey p.table = ["id"]) {v : SqlValue}
    (hrid : r.value "id" = some v) (hpid : p.value "id" = some v) : r = p := by
  refine List.inj_on_of_nodup_map h.keys hr hp (Prod.ext htable ?_)
  show (primaryKey r.table).map r.value = (primaryKey p.table).map p.value
  rw [htable, hkey, List.map_cons, List.map_nil, List.map_cons, List.map_nil, hrid, hpid]

include hdel

/-- What a query finds among rows that are not taken. -/
theorem select_iff {α : Type} {table : Table} {read : SqlRow → Option α} {x : α}
    (hstays : ∀ r ∈ rows, r.table = table → read r = some x →
      ¬Taken constraints rows .organizations org r) :
    x ∈ select rows table read ↔ x ∈ select after table read := by
  rw [mem_select, mem_select]
  constructor
  · rintro ⟨r, hr, htable, hx⟩
    exact ⟨r, (mem_after hdel).2 ⟨hr, hstays r hr htable hx⟩, htable, hx⟩
  · rintro ⟨r, hr, htable, hx⟩
    exact ⟨r, ((mem_after hdel).1 hr).1, htable, hx⟩

omit hdel
include hcoherent

/-- A row of another organization is not taken. -/
theorem scoped_stays (hne : other ≠ org) (hscoped : r.table ∈ scopedTables)
    (horg : r.value "org_id" = some (.text other)) :
    ¬Taken constraints rows .organizations org r := by
  intro htaken
  rcases owns_iff.1 (owns_of_taken hcoherent htaken) with ⟨htable, -⟩ | ⟨htable, -⟩ | ⟨htable, -⟩ |
    ⟨-, hown⟩
  · exact absurd (htable ▸ hscoped) (by decide)
  · exact absurd (htable ▸ hscoped) (by decide)
  · exact absurd (htable ▸ hscoped) (by decide)
  · rw [horg, Option.some.injEq, SqlValue.text.injEq] at hown
    exact hne hown

/-- A permission of a role goes only with a role of the organization. -/
theorem rolePermission_owner (htable : r.table = .rolePermissions) {role : String}
    (hrole : r.value "role_id" = some (.text role))
    (htaken : Taken constraints rows .organizations org r) :
    ∃ q ∈ rows, q.table = .roles ∧ q.value "org_id" = some (.text org) ∧
      q.value "id" = some (.text role) := by
  rcases owns_iff.1 (owns_of_taken hcoherent htaken) with ⟨h', -⟩ | ⟨h', -⟩ | ⟨-, q, hq, hqtable,
    hqorg, v, hqid, hv⟩ | ⟨h', -⟩
  · rw [htable] at h'
    cases h'
  · rw [htable] at h'
    cases h'
  · obtain rfl : v = .text role := Option.some.inj (hv.symm.trans hrole)
    exact ⟨q, hq, hqtable, hqorg, hqid⟩
  · rw [htable] at h'
    exact absurd h' (by decide)

include h

/-- A member of a team stays with it. -/
theorem teamMember_stays (hne : other ≠ org) (htable : r.table = .teamMembers) {team : String}
    (hteam : r.value "team_id" = some (.text team))
    (hp : p ∈ rows) (hptable : p.table = .teams) (hpid : p.value "id" = some (.text team))
    (hporg : p.value "org_id" = some (.text other)) :
    ¬Taken constraints rows .organizations org r := by
  intro htaken
  rcases owns_iff.1 (owns_of_taken hcoherent htaken) with ⟨h', -⟩ | ⟨-, q, hq, hqtable, hqorg, v,
    hqid, hv⟩ | ⟨h', -⟩ | ⟨h', -⟩
  · rw [htable] at h'
    cases h'
  · obtain rfl : v = .text team := Option.some.inj (hv.symm.trans hteam)
    obtain rfl : q = p := eq_of_id h hq hp (hqtable.trans hptable.symm) (by rw [hptable]; rfl)
      hqid hpid
    rw [hporg, Option.some.injEq, SqlValue.text.injEq] at hqorg
    exact hne hqorg
  · rw [htable] at h'
    cases h'
  · rw [htable] at h'
    exact absurd h' (by decide)

include hdel

/-- The authorizer finds the rows of the other organizations as before. -/
theorem agreeOn_after (hne : other ≠ org) : (ofRows rows).AgreeOn (ofRows after) other where
  users u := select_iff hdel fun r _ htable _ htaken => by
    have := Taken.closed tenantTables_closed rfl htaken
    rw [htable] at this
    cases this
  permissions p := select_iff hdel fun r _ htable _ htaken => by
    have := Taken.closed tenantTables_closed rfl htaken
    rw [htable] at this
    cases this
  memberships m hm := select_iff hdel fun r _ htable hread =>
    scoped_stays hcoherent hne (by rw [htable]; decide) (hm ▸ (membershipRow_values hread).1)
  teams team hteam := select_iff hdel fun r _ htable hread =>
    scoped_stays hcoherent hne (by rw [htable]; decide) (hteam ▸ (teamRow_values hread).2)
  teamMembers m hown := by
    obtain ⟨team, hteam, hid, horg⟩ := hown
    obtain ⟨p, hp, hptable, hpread⟩ := mem_select.1 hteam
    obtain ⟨hpid, hporg⟩ := teamRow_values hpread
    exact select_iff hdel fun r _ htable hread =>
      teamMember_stays h hcoherent hne htable (teamMemberRow_values hread).1 hp hptable
        (hid ▸ hpid) (horg ▸ hporg)
  roles role hrole := select_iff hdel fun r hr htable hread htaken => by
    obtain ⟨-, hrorg⟩ := roleRow_values hread
    rcases owns_iff.1 (owns_of_taken hcoherent htaken) with ⟨h', -⟩ | ⟨h', -⟩ | ⟨h', -⟩ | ⟨-, hown⟩
    · rw [htable] at h'
      cases h'
    · rw [htable] at h'
      cases h'
    · rw [htable] at h'
      cases h'
    · rw [SqlRow.text_eq_some.2 hown] at hrorg
      rcases hrole with hnone | hsome
      · rw [hnone] at hrorg
        cases hrorg
      · rw [hsome, Option.some.injEq] at hrorg
        exact hne hrorg.symm
  rolePermissions rp hown := by
    obtain ⟨role, hrole, hid, horg⟩ := hown
    obtain ⟨p, hp, hptable, hpread⟩ := mem_select.1 hrole
    obtain ⟨hpid, hporg⟩ := roleRow_values hpread
    refine select_iff hdel fun r _ htable hread htaken => ?_
    obtain ⟨q, hq, hqtable, hqorg, hqid⟩ :=
      rolePermission_owner hcoherent htable (rolePermissionRow_values hread) htaken
    obtain rfl : q = p := eq_of_id h hq hp (hqtable.trans hptable.symm) (by rw [hptable]; rfl)
      hqid (hid ▸ hpid)
    rw [SqlRow.text_eq_some.2 hqorg] at hporg
    rcases horg with hnone | hsome
    · rw [hnone] at hporg
      cases hporg
    · rw [hsome, Option.some.injEq] at hporg
      exact hne hporg.symm
  serviceAccounts s hs := select_iff hdel fun r _ htable hread =>
    scoped_stays hcoherent hne (by rw [htable]; decide) (hs ▸ serviceAccountRow_values hread)
  roleAssignments a ha := select_iff hdel fun r _ htable hread =>
    scoped_stays hcoherent hne (by rw [htable]; decide) (ha ▸ (roleAssignmentRow_values hread).1)

/-- The roles granted in other organizations keep their permissions. -/
theorem bestows_after (hne : other ≠ org) {grant : RoleAssignmentRow}
    (hgrant : grant ∈ (ofRows rows).roleAssignments) (horg : grant.orgId = other)
    (permission : Permission) :
    (ofRows rows).Bestows grant permission ↔ (ofRows after).Bestows grant permission := by
  obtain ⟨a, ha, hatable, haread⟩ := mem_select.1 hgrant
  obtain ⟨haorg, harole⟩ := roleAssignmentRow_values haread
  have hsame : ∀ rp : RolePermissionRow, rp.roleId = grant.roleId →
      (rp ∈ (ofRows rows).rolePermissions ↔ rp ∈ (ofRows after).rolePermissions) := by
    refine fun rp hrp => select_iff hdel fun r _ htable hread htaken => ?_
    obtain ⟨q, hq, hqtable, hqorg, hqid⟩ :=
      rolePermission_owner hcoherent htable (rolePermissionRow_values hread) htaken
    -- the grant would go with the role
    have hqown : Owns rows org q := owns_iff.2 (.inr (.inr (.inr ⟨by rw [hqtable]; decide, hqorg⟩)))
    have hfk : ⟨.roleAssignments, "role_id", .roles, .cascade⟩ ∈ foreignKeys := by decide
    have hgone : Owns rows org a :=
      hcoherent a ha q hq (refers_of_value hfk hatable hqtable rfl harole (hrp ▸ hqid)) hqown
    refine scoped_stays hcoherent hne (by rw [hatable]; decide) (horg ▸ haorg)
      (taken_of_owns h ha hgone)
  constructor
  · rintro ⟨rp, hrp, hrole, hkey⟩
    exact ⟨rp, (hsame rp hrole).1 hrp, hrole, hkey⟩
  · rintro ⟨rp, hrp, hrole, hkey⟩
    exact ⟨rp, (hsame rp hrole).2 hrp, hrole, hkey⟩

end OtherTenants

section Decisions

open Tables

theorem denied_of_inactive {t : Tables} {principal : Principal}
    (hsystem : principal.isSystem = false) (hstanding : ¬t.GoodStanding principal)
    (c : DecisionCache) {check : Check} (hcheck : check.standing = .ok t) (permission : Permission)
    (scope : Scope) :
    ∃ d, (c.authorize check principal permission scope).1 = .error (.denied d) := by
  rw [← isActivePrincipal_iff, Bool.not_eq_true] at hstanding
  unfold DecisionCache.authorize
  simp only [hsystem, hcheck, hstanding, Bool.false_eq_true, if_false]
  split_ifs
  · exact ⟨_, rfl⟩
  · exact ⟨_, rfl⟩

/-- Deleting an organization changes no decision about the others, and nobody may do anything in it
any more, whatever the cache remembers. -/
theorem tenants_unaffected (h : (schema constraints).Integral rows) {org : OrgId}
    (hdel : deleteById constraints rows .organizations org.toCanonical = .ok after) :
    (Coherent constraints rows org.toCanonical → ∀ principal : Principal, principal.org ≠ org →
      (ofRows rows).AnswersAs (ofRows after) principal) ∧
      ∀ (c : DecisionCache) (check : Check) (principal : Principal) (permission : Permission)
        (scope : Scope), principal.org = org → principal.isSystem = false →
        check.standing = .ok (ofRows after) →
        ∃ d, (c.authorize check principal permission scope).1 = .error (.denied d) := by
  constructor
  · intro hcoherent principal hne
    have hother : principal.org.toCanonical ≠ org.toCanonical :=
      fun heq => hne (Id.toCanonical_inj heq)
    have hagree := agreeOn_after h hcoherent hdel hother
    refine answersAs_of (fun q hq _ => hagree.isActivePrincipal hq) fun _ scope _ => ?_
    ext permission
    rw [mem_queryPermissions_iff_grant, mem_queryPermissions_iff_grant]
    constructor
    · rintro ⟨grant, hgrant, hreaches, hbestows⟩
      refine ⟨grant, (hagree.roleAssignments grant hreaches.orgId).1 hgrant,
        hagree.reaches rfl hreaches, ?_⟩
      exact (bestows_after h hcoherent hdel hother hgrant hreaches.orgId permission).1 hbestows
    · rintro ⟨grant, hgrant, hreaches, hbestows⟩
      have hgrant' := (hagree.roleAssignments grant hreaches.orgId).2 hgrant
      refine ⟨grant, hgrant', hagree.symm.reaches rfl hreaches, ?_⟩
      exact (bestows_after h hcoherent hdel hother hgrant' hreaches.orgId permission).2 hbestows
  · rintro c check principal permission scope rfl hsystem hcheck
    refine denied_of_inactive hsystem (fun hstanding => ?_) c hcheck permission scope
    have hgone : ∀ r ∈ after, r.table ∈ scopedTables →
        r.value "org_id" ≠ some (.text principal.org.toCanonical) := fun r hr hscoped horg =>
      ((mem_after hdel).1 hr).2 (taken_of_scoped h ((mem_after hdel).1 hr).1 hscoped horg)
    cases principal with
    | user org user =>
      obtain ⟨⟨m, hm, horg, -⟩, -⟩ := hstanding
      obtain ⟨r, hr, htable, hread⟩ := mem_select.1 hm
      exact hgone r hr (by rw [htable]; decide) (horg ▸ (membershipRow_values hread).1)
    | serviceAccount org sa =>
      obtain ⟨s, hs, -, horg, -⟩ := hstanding
      obtain ⟨r, hr, htable, hread⟩ := mem_select.1 hs
      exact hgone r hr (by rw [htable]; decide) (horg ▸ serviceAccountRow_values hread)
    | system org => cases hsystem

/-- The member of both organizations is still a viewer in the second. -/
theorem sample_unaffected : ∃ after,
    deleteById anything sampleRows .organizations sampleUlid.text = .ok after ∧
      (ofRows sampleRows).AnswersAs (ofRows after) (.user ⟨otherUlid⟩ ⟨sampleUlid⟩) ∧
      (ofRows sampleRows).queryPermissions (.user ⟨otherUlid⟩ ⟨sampleUlid⟩) (.org ⟨otherUlid⟩)
        = {.runRead} := by
  let org : OrgId := ⟨sampleUlid⟩
  obtain ⟨after, hdel⟩ := deleteById_ok anything sampleRows .organizations org.toCanonical
    tenantTables_closed rfl rfl rfl
  refine ⟨after, hdel, ?_, by decide +kernel⟩
  exact (tenants_unaffected sample_integral hdel).1 sample_coherent _ (by decide +kernel)

end Decisions

section Offboarding

variable {user : String}

/-- What a user may take along. -/
def personalTables (table : Table) : Bool :=
  table ∈ [Table.users, .credentials, .memberships, .teamMembers]

theorem personalTables_closed : Closed personalTables := by decide

/-- The columns that forget a user. -/
def userColumns : List String := ["created_by", "granted_by", "invited_by", "accepted_by"]

theorem value_forgets {gone : List SqlRow} {column : String} (hcolumn : column ∉ userColumns) :
    ((schema constraints).cleared gone r).value column = r.value column := by
  rw [value_cleared, if_neg]
  rintro ⟨fk, hfk, ⟨hnull, rfl⟩, -⟩
  have honly : ∀ fk ∈ foreignKeys, fk.onDelete = .setNull → fk.column ∈ userColumns := by decide
  exact hcolumn (honly fk hfk hnull)

/-- Exactly what is personal goes with a user. -/
theorem taken_iff_personal (h : (schema constraints).Integral rows) (hr : r ∈ rows) :
    Taken constraints rows .users user r ↔ Personal user r := by
  constructor
  · intro htaken
    refine htaken.least (K := Personal user)
      (fun r _ ht => .inl ⟨ht.1, of_decide_eq_true ht.2⟩) ?_
    rintro r - p - ⟨fk, hfk, haction, href⟩ hp
    have hpK : personalTables p.table := by
      rcases hp with ⟨htable, -⟩ | ⟨htable | htable | htable, -⟩ <;> rw [htable] <;> rfl
    have hparent : fk.parent = p.table := (congrArg Prod.fst href.2.choose_spec.2).symm
    have honly : ∀ fk ∈ foreignKeys, fk.onDelete = .cascade → personalTables fk.parent →
        fk.parent = .users ∧ fk.column = "user_id" ∧
          (fk.child = .credentials ∨ fk.child = .memberships ∨ fk.child = .teamMembers) := by decide
    obtain ⟨husers, hcolumn, hchild⟩ := honly fk hfk haction (hparent ▸ hpK)
    obtain ⟨hptable, v, hv, hpid⟩ := value_of_refersBy (by rw [husers]; rfl) href
    rcases hp with ⟨-, hid⟩ | ⟨htable, -⟩
    · rw [hid, Option.some.injEq] at hpid
      exact .inr ⟨href.1 ▸ hchild, by rw [← hcolumn, hv, hpid]⟩
    · rw [← hparent, husers] at htable
      exact absurd htable (by decide)
  · rintro (⟨htable, hid⟩ | ⟨htable, hid⟩)
    · exact .target hr ⟨htable, decide_eq_true hid⟩
    · have hfk : ⟨r.table, "user_id", .users, .cascade⟩ ∈ foreignKeys := by
        rcases htable with htable | htable | htable <;> rw [htable] <;> decide
      obtain ⟨p, hp, hptable, hpid⟩ := exists_target h hr hfk rfl rfl hid
      exact .cascade hr (refers_of_value hfk rfl hptable rfl hid hpid)
        (.target hp ⟨hptable, decide_eq_true hpid⟩)

/-- A user can always be deleted. What is personal goes, and no other row is changed but in columns
that name the user, which become null. -/
theorem user_deleted (h : (schema constraints).Integral rows) (user : String) :
    ∃ after, deleteById constraints rows .users user = .ok after ∧
      (schema constraints).Integral after ∧
      (∀ r ∈ rows, Personal user r ↔
        ∀ r' ∈ after, (schema constraints).id r' ≠ (schema constraints).id r) ∧
      ∀ r' ∈ after, ∃ r ∈ rows, (schema constraints).id r' = (schema constraints).id r ∧
        ∀ column, r'.value column = r.value column ∨
          column ∈ userColumns ∧ r'.value column = none ∧ r.value column = some (.text user) := by
  obtain ⟨after, hdel⟩ := deleteById_ok constraints rows .users user personalTables_closed rfl rfl
    rfl
  refine ⟨after, hdel, h.delete forgettable hdel, fun r hr => ?_, fun r' hr' => ?_⟩
  · rw [← taken_iff_personal h hr]
    constructor
    · intro htaken r' hr' hid
      obtain ⟨r₁, hr₁, hstays, rfl⟩ := (mem_delete hdel).1 hr'
      rw [id_cleared forgettable] at hid
      exact hstays (List.inj_on_of_nodup_map h.keys hr₁ hr hid ▸ htaken)
    · intro hall
      by_contra hstays
      exact hall _ ((mem_delete hdel).2 ⟨r, hr, hstays, rfl⟩) (id_cleared forgettable)
  · obtain ⟨r, hr, -, rfl⟩ := (mem_delete hdel).1 hr'
    refine ⟨r, hr, id_cleared forgettable, fun column => ?_⟩
    rw [value_cleared]
    split_ifs with hforgets
    · obtain ⟨fk, hfk, ⟨hnull, rfl⟩, p, hp, href⟩ := hforgets
      have honly : ∀ fk ∈ foreignKeys, fk.onDelete = .setNull →
          fk.parent = .users ∧ fk.column ∈ userColumns := by decide
      obtain ⟨husers, hcolumn⟩ := honly fk hfk hnull
      obtain ⟨hptable, v, hv, hpid⟩ := value_of_refersBy (by rw [husers]; rfl) href
      rcases (taken_iff_personal h (mem_doomed.1 hp).mem).1 (mem_doomed.1 hp) with ⟨-, hid⟩ |
        ⟨htable, -⟩
      · rw [hid, Option.some.injEq] at hpid
        exact .inr ⟨hcolumn, rfl, hpid ▸ hv⟩
      · rw [hptable, husers] at htable
        exact absurd htable (by decide)
    · exact .inl rfl

theorem sample_user_deleted : ∃ after,
    deleteById anything sampleRows .users sampleUlid.text = .ok after ∧
      (schema anything).Integral after ∧
      (∀ r ∈ sampleRows, Personal sampleUlid.text r ↔
        ∀ r' ∈ after, (schema anything).id r' ≠ (schema anything).id r) ∧
      ∀ r' ∈ after, ∃ r ∈ sampleRows, (schema anything).id r' = (schema anything).id r ∧
        ∀ column, r'.value column = r.value column ∨ column ∈ userColumns ∧
          r'.value column = none ∧ r.value column = some (.text sampleUlid.text) :=
  user_deleted sample_integral sampleUlid.text

section Rows

open Tables

variable (h : (schema constraints).Integral rows)
  (hdel : deleteById constraints rows .users user = .ok after)

omit rows after in
/-- No query of the authorizer reads a column that forgets a user. -/
theorem reads_cleared (gone : List SqlRow) (r : SqlRow) :
    (userRow ((schema constraints).cleared gone r) = userRow r ∧
      membershipRow ((schema constraints).cleared gone r) = membershipRow r ∧
      teamRow ((schema constraints).cleared gone r) = teamRow r ∧
      teamMemberRow ((schema constraints).cleared gone r) = teamMemberRow r) ∧
    rolePermissionRow ((schema constraints).cleared gone r) = rolePermissionRow r ∧
      serviceAccountRow ((schema constraints).cleared gone r) = serviceAccountRow r ∧
      roleAssignmentRow ((schema constraints).cleared gone r) = roleAssignmentRow r := by
  have htext {column : String} (hcolumn : column ∉ userColumns) :
      SqlRow.text ((schema constraints).cleared gone r) column = SqlRow.text r column := by
    unfold SqlRow.text
    rw [value_forgets hcolumn]
  have hinteger {column : String} (hcolumn : column ∉ userColumns) :
      SqlRow.integer ((schema constraints).cleared gone r) column = SqlRow.integer r column := by
    unfold SqlRow.integer
    rw [value_forgets hcolumn]
  unfold userRow membershipRow teamRow teamMemberRow rolePermissionRow serviceAccountRow
    roleAssignmentRow
  simp (disch := decide) only [htext, hinteger, and_self]

include h hdel

/-- What a query finds after a user is deleted. -/
theorem mem_select_after {α : Type} {table : Table} {read : SqlRow → Option α} {x : α}
    (hread : ∀ gone r, read ((schema constraints).cleared gone r) = read r) :
    x ∈ select after table read ↔
      ∃ r ∈ rows, r.table = table ∧ ¬Personal user r ∧ read r = some x := by
  rw [mem_select]
  constructor
  · rintro ⟨r', hr', htable, hx⟩
    obtain ⟨r, hr, hstays, rfl⟩ := (mem_delete hdel).1 hr'
    exact ⟨r, hr, htable, fun hpersonal => hstays ((taken_iff_personal h hr).2 hpersonal),
      (hread _ r).symm.trans hx⟩
  · rintro ⟨r, hr, htable, hnot, hx⟩
    exact ⟨_, (mem_delete hdel).2 ⟨r, hr, fun htaken => hnot ((taken_iff_personal h hr).1 htaken),
      rfl⟩, htable, (hread _ r).trans hx⟩

/-- A query of rows that are never personal finds the same. -/
theorem select_shared {α : Type} {table : Table} {read : SqlRow → Option α} {x : α}
    (hread : ∀ gone r, read ((schema constraints).cleared gone r) = read r)
    (hstays : ∀ r : SqlRow, r.table = table → read r = some x → ¬Personal user r) :
    x ∈ select rows table read ↔ x ∈ select after table read := by
  rw [mem_select, mem_select_after h hdel hread]
  constructor
  · rintro ⟨r, hr, htable, hx⟩
    exact ⟨r, hr, htable, hstays r htable hx, hx⟩
  · rintro ⟨r, hr, htable, -, hx⟩
    exact ⟨r, hr, htable, hx⟩

omit h hdel in
theorem not_personal (htable : personalTables r.table = false) : ¬Personal user r := by
  rintro (⟨h', -⟩ | ⟨h' | h' | h', -⟩) <;> rw [h'] at htable <;> cases htable

omit h hdel in
theorem not_personal_of_user {other : String} (hne : other ≠ user) (htable : r.table ≠ .users)
    (hother : r.value "user_id" = some (.text other)) : ¬Personal user r := by
  rintro (⟨h', -⟩ | ⟨-, hid⟩)
  · exact htable h'
  · rw [hother, Option.some.injEq, SqlValue.text.injEq] at hid
    exact hne hid

theorem memberships_after {m : MembershipRow} (hne : m.userId ≠ user) :
    m ∈ (ofRows rows).memberships ↔ m ∈ (ofRows after).memberships :=
  select_shared h hdel (fun gone r => (reads_cleared gone r).1.2.1) fun r htable hread =>
    not_personal_of_user hne (by rw [htable]; decide) (membershipRow_values hread).2

theorem users_after {u : UserRow} (hne : u.id ≠ user) :
    u ∈ (ofRows rows).users ↔ u ∈ (ofRows after).users := by
  refine select_shared h hdel (fun gone r => (reads_cleared gone r).1.1) fun r htable hread => ?_
  rintro (⟨-, hid⟩ | ⟨h' | h' | h', -⟩)
  · rw [userRow_values hread, Option.some.injEq, SqlValue.text.injEq] at hid
    exact hne hid
  · rw [htable] at h'
    cases h'
  · rw [htable] at h'
    cases h'
  · rw [htable] at h'
    cases h'

theorem teamMembers_after {m : TeamMemberRow} (hne : m.userId ≠ user) :
    m ∈ (ofRows rows).teamMembers ↔ m ∈ (ofRows after).teamMembers :=
  select_shared h hdel (fun gone r => (reads_cleared gone r).1.2.2.2) fun r htable hread =>
    not_personal_of_user hne (by rw [htable]; decide) (teamMemberRow_values hread).2

theorem teams_after (team : TeamRow) : team ∈ (ofRows rows).teams ↔ team ∈ (ofRows after).teams :=
  select_shared h hdel (fun gone r => (reads_cleared gone r).1.2.2.1) fun r htable _ =>
    not_personal (by rw [htable]; rfl)

theorem serviceAccounts_after (s : ServiceAccountRow) :
    s ∈ (ofRows rows).serviceAccounts ↔ s ∈ (ofRows after).serviceAccounts :=
  select_shared h hdel (fun gone r => (reads_cleared gone r).2.2.1) fun r htable _ =>
    not_personal (by rw [htable]; rfl)

theorem rolePermissions_after (rp : RolePermissionRow) :
    rp ∈ (ofRows rows).rolePermissions ↔ rp ∈ (ofRows after).rolePermissions :=
  select_shared h hdel (fun gone r => (reads_cleared gone r).2.1) fun r htable _ =>
    not_personal (by rw [htable]; rfl)

/-- The grants to a user stay. -/
theorem roleAssignments_after (a : RoleAssignmentRow) :
    a ∈ (ofRows rows).roleAssignments ↔ a ∈ (ofRows after).roleAssignments :=
  select_shared h hdel (fun gone r => (reads_cleared gone r).2.2.2) fun r htable _ =>
    not_personal (by rw [htable]; rfl)

theorem teamsOf_after {other : String} (hne : other ≠ user) (org team : String) :
    team ∈ (ofRows rows).teamsOf org other ↔ team ∈ (ofRows after).teamsOf org other := by
  rw [mem_teamsOf, mem_teamsOf]
  constructor
  · rintro ⟨m, hm, hteam, rfl, row, hrow, hid⟩
    exact ⟨m, (teamMembers_after h hdel hne).1 hm, hteam, rfl, row, (teams_after h hdel row).1 hrow,
      hid⟩
  · rintro ⟨m, hm, hteam, rfl, row, hrow, hid⟩
    exact ⟨m, (teamMembers_after h hdel hne).2 hm, hteam, rfl, row, (teams_after h hdel row).2 hrow,
      hid⟩

theorem goodStanding_after {principal : Principal} (hne : principal.idString ≠ some user) :
    (ofRows rows).GoodStanding principal ↔ (ofRows after).GoodStanding principal := by
  cases principal with
  | user org other =>
    have hother : other.toCanonical ≠ user := fun heq => hne (congrArg some heq)
    constructor
    · rintro ⟨⟨m, hm, horg, hmid, hstatus⟩, u, hu, huid, hustatus⟩
      exact ⟨⟨m, (memberships_after h hdel (hmid ▸ hother)).1 hm, horg, hmid, hstatus⟩, u,
        (users_after h hdel (huid ▸ hother)).1 hu, huid, hustatus⟩
    · rintro ⟨⟨m, hm, horg, hmid, hstatus⟩, u, hu, huid, hustatus⟩
      exact ⟨⟨m, (memberships_after h hdel (hmid ▸ hother)).2 hm, horg, hmid, hstatus⟩, u,
        (users_after h hdel (huid ▸ hother)).2 hu, huid, hustatus⟩
  | serviceAccount org sa =>
    constructor
    · rintro ⟨s, hs, hrest⟩
      exact ⟨s, (serviceAccounts_after h hdel s).1 hs, hrest⟩
    · rintro ⟨s, hs, hrest⟩
      exact ⟨s, (serviceAccounts_after h hdel s).2 hs, hrest⟩
  | system org => exact Iff.rfl

theorem queryPermissions_after {principal : Principal} (hne : principal.idString ≠ some user)
    (scope : Scope) : (ofRows rows).queryPermissions principal scope =
      (ofRows after).queryPermissions principal scope := by
  ext permission
  rw [mem_queryPermissions, mem_queryPermissions]
  have hteams {id : String} (hid : principal.idString = some id) (org team : String) :=
    teamsOf_after h hdel (fun heq => hne (heq ▸ hid) : id ≠ user) org team
  constructor
  · rintro ⟨id, hid, grant, hgrant, horg, hnames, ⟨rp, hrp, hrow⟩, hcovers⟩
    exact ⟨id, hid, grant, (roleAssignments_after h hdel grant).1 hgrant, horg,
      hnames.imp_right (And.imp_right (hteams hid _ _).1),
      ⟨rp, (rolePermissions_after h hdel rp).1 hrp, hrow⟩, hcovers⟩
  · rintro ⟨id, hid, grant, hgrant, horg, hnames, ⟨rp, hrp, hrow⟩, hcovers⟩
    exact ⟨id, hid, grant, (roleAssignments_after h hdel grant).2 hgrant, horg,
      hnames.imp_right (And.imp_right (hteams hid _ _).2),
      ⟨rp, (rolePermissions_after h hdel rp).2 hrp, hrow⟩, hcovers⟩

end Rows

open Tables in
/-- A deleted user may do nothing anywhere, although the grants stay and whatever the cache
remembers, and nothing changes for anybody else. -/
theorem offboarded (h : (schema constraints).Integral rows) {user : UserId}
    (hdel : deleteById constraints rows .users user.toCanonical = .ok after) :
    (∀ grant, grant ∈ (ofRows rows).roleAssignments ↔ grant ∈ (ofRows after).roleAssignments) ∧
    (∀ (c : DecisionCache) (check : Check) (org : OrgId) (permission : Permission) (scope : Scope),
      check.standing = .ok (ofRows after) →
        ∃ d, (c.authorize check (.user org user) permission scope).1 = .error (.denied d)) ∧
      ∀ principal : Principal, principal.idString ≠ some user.toCanonical →
        (ofRows rows).AnswersAs (ofRows after) principal := by
  refine ⟨roleAssignments_after h hdel, fun c check org permission scope hcheck => ?_,
    fun principal hne => ?_⟩
  · refine denied_of_inactive rfl (fun hstanding => ?_) c hcheck permission scope
    obtain ⟨-, u, hu, huid, -⟩ := hstanding
    obtain ⟨r, -, htable, hnot, hread⟩ :=
      (mem_select_after h hdel fun gone r => (reads_cleared gone r).1.1).1 hu
    exact hnot (.inl ⟨htable, huid ▸ userRow_values hread⟩)
  · refine answersAs_of (fun q _ hid => ?_) fun _ scope _ => queryPermissions_after h hdel hne scope
    rw [Bool.eq_iff_iff, isActivePrincipal_iff, isActivePrincipal_iff]
    exact goodStanding_after h hdel (hid ▸ hne)

open Tables in
/-- The user's grant in the second organization stays, and counts for nothing. -/
theorem sample_offboarded : ∃ after,
    deleteById anything sampleRows .users sampleUlid.text = .ok after ∧
      (ofRows after).roleAssignments ≠ [] ∧
      ∀ (c : DecisionCache) (check : Check) (org : OrgId) (permission : Permission) (scope : Scope),
        check.standing = .ok (ofRows after) →
          ∃ d, (c.authorize check (.user org ⟨sampleUlid⟩) permission scope).1
            = .error (.denied d) := by
  let user : UserId := ⟨sampleUlid⟩
  obtain ⟨after, hdel⟩ := deleteById_ok anything sampleRows .users user.toCanonical
    personalTables_closed rfl rfl rfl
  obtain ⟨hgrants, hdenied, -⟩ := offboarded sample_integral hdel
  refine ⟨after, hdel, ?_, hdenied⟩
  have hgrant : ∃ grant, grant ∈ (ofRows sampleRows).roleAssignments :=
    List.exists_mem_of_length_pos (by decide +kernel)
  obtain ⟨grant, hmem⟩ := hgrant
  exact List.ne_nil_of_mem ((hgrants grant).1 hmem)

end Offboarding

section Audit

end Audit

end Migrations

end Jetrun
