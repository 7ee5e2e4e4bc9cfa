import Jetrun.Promotion
import Jetrun.Proofs.Bootstrap
import Jetrun.Proofs.Tenancy

/-!
# What a built-in role is worth

After a start that went well, whatever the tables held before, a grant of a built-in role is worth
the permissions that the code lists for it. On the ladder each list includes those before it, so to
move a grant up takes nothing from anybody.
-/

namespace Jetrun

theorem SystemRole.below_iff {lower higher : SystemRole} : lower.Below higher ↔
    lower.permissions.toFinset ⊆ higher.permissions.toFinset := by
  cases lower <;> cases higher <;> decide

section Seeded

variable {now : Int} {fresh : SystemRole → Ulid} {db : Db} {transaction : Tables}
  {faults : List (Option StoreError)} {grant : RoleAssignmentRow} {role : SystemRole}
  {permission : Permission}

theorem bootstrap_asCoded
    (hok : (bootstrap now fresh ⟨db.toTables, transaction, faults⟩).result = .ok ()) :
    ∃ db' : Db,
      (bootstrap now fresh ⟨db.toTables, transaction, faults⟩).world.committed = db'.toTables ∧
        db'.AsCoded ∧ db.roles ⊆ db'.roles ∧ db.OthersKept db'.toTables := by
  obtain ⟨-, db', hcommitted, hturns⟩ := (bootstrap_ends False now fresh db transaction faults
    False.elim False.elim False.elim).1 hok
  refine ⟨db', hcommitted, fun role => ?_, hturns.others⟩
  obtain ⟨row, hrows, -, hperms⟩ := hturns.reconciled (by decide) role role.mem_all
  exact ⟨row, hrows, hperms⟩

theorem Tables.AsCoded.bestows {t : Tables} (h : t.AsCoded) (hrole : t.OfRole grant role) :
    t.Bestows grant permission ↔ permission ∈ role.permissions := by
  obtain ⟨row, hrow, hid, hbuiltIn⟩ := hrole
  obtain ⟨row', hrows, hperms⟩ := h role
  have hmem : row ∈ t.roles.filter (·.IsBuiltIn role) :=
    List.mem_filter.2 ⟨hrow, decide_eq_true hbuiltIn⟩
  obtain rfl : row = row' := List.mem_singleton.1 (hrows ▸ hmem)
  constructor
  · rintro ⟨⟨roleId, key⟩, hrp, hgrant, hkey⟩
    obtain rfl : roleId = row.id := hgrant.trans hid.symm
    obtain ⟨p, hp, hpkey⟩ := (hperms key).1 hrp
    rw [← Permission.asStr_inj (hpkey.trans hkey)]
    exact hp
  · intro hp
    exact ⟨⟨row.id, permission.asStr⟩, (hperms _).2 ⟨permission, hp, rfl⟩, hid, rfl⟩

variable {db' : Db}

/-- A grant of the organization keeps its role, as it can only be of a role that was there. -/
theorem ofRole_seeded (hroles : db.roles ⊆ db'.roles) (hgrant : grant ∈ db.roleAssignments) :
    db'.OfRole grant role ↔ db.OfRole grant role := by
  constructor
  · rintro ⟨row, hrow, hid, hbuiltIn⟩
    obtain ⟨row', hrow', hid'⟩ := List.mem_map.1 (db.roleAssignments_role grant hgrant)
    obtain rfl := db'.role_of_id hrow (hroles hrow') (hid.trans hid'.symm)
    exact ⟨row, hrow', hid, hbuiltIn⟩
  · rintro ⟨row, hrow, hrest⟩
    exact ⟨row, hroles hrow, hrest⟩

theorem bestows_seeded (hroles : db.roles ⊆ db'.roles) (hothers : db.OthersKept db'.toTables)
    (hgrant : grant ∈ db.roleAssignments) (hcustom : ∀ role, ¬db.OfRole grant role) :
    db'.Bestows grant permission ↔ db.Bestows grant permission := by
  have hkept : ∀ rp : RolePermissionRow, rp.roleId = grant.roleId →
      (rp ∈ db'.rolePermissions ↔ rp ∈ db.rolePermissions) := by
    intro rp hrp
    refine hothers.permissions rp fun row hrow hid role hbuiltIn => hcustom role ?_
    exact (ofRole_seeded hroles hgrant).1 ⟨row, hrow, hid.trans hrp, hbuiltIn⟩
  constructor
  · rintro ⟨rp, hrp, hid, hkey⟩
    exact ⟨rp, (hkept rp hid).1 hrp, hid, hkey⟩
  · rintro ⟨rp, hrp, hid, hkey⟩
    exact ⟨rp, (hkept rp hid).2 hrp, hid, hkey⟩

theorem worth_seeded (hcoded : db'.AsCoded) (hroles : db.roles ⊆ db'.roles)
    (hothers : db.OthersKept db'.toTables) (hgrant : grant ∈ db.roleAssignments) :
    db'.Bestows grant permission ↔ db.Worth grant permission := by
  by_cases hcustom : ∀ role, ¬db.OfRole grant role
  · rw [bestows_seeded hroles hothers hgrant hcustom]
    constructor
    · exact fun h => .inr ⟨hcustom, h⟩
    · rintro (⟨role, hrole, -⟩ | ⟨-, h⟩)
      · exact absurd hrole (hcustom role)
      · exact h
  · obtain ⟨role, hrole⟩ := not_forall_not.1 hcustom
    constructor
    · exact fun h =>
        .inl ⟨role, hrole, (hcoded.bestows ((ofRole_seeded hroles hgrant).2 hrole)).1 h⟩
    · rintro (⟨role', hrole', h⟩ | ⟨hno, -⟩)
      · exact (hcoded.bestows ((ofRole_seeded hroles hgrant).2 hrole')).2 h
      · exact absurd hrole (hno role)

theorem Tables.OthersKept.roleAssignments {t t' : Tables} (h : t.OthersKept t') :
    t'.roleAssignments = t.roleAssignments := by
  rw [← h.rest]

theorem Tables.OthersKept.reaches {t t' : Tables} (h : t.OthersKept t') (principal : Principal)
    (scope : Scope) : t'.Reaches grant principal scope ↔ t.Reaches grant principal scope := by
  rw [← h.rest]
  exact Iff.rfl

/-- After a start that went well everybody holds, at every scope, what the grants that were there
are worth: those of built-in roles what the code says, whatever the tables said, and the others what
the tables said. -/
theorem granted_as_coded (db : Db) (now : Int) (fresh : SystemRole → Ulid) (transaction : Tables)
    (faults : List (Option StoreError))
    (hok : (bootstrap now fresh ⟨db.toTables, transaction, faults⟩).result = .ok ())
    (principal : Principal) (scope : Scope) (permission : Permission) :
    let seeded := (bootstrap now fresh ⟨db.toTables, transaction, faults⟩).world.committed
    permission ∈ seeded.queryPermissions principal scope ↔
      ∃ grant ∈ db.roleAssignments, db.Reaches grant principal scope ∧
        db.Worth grant permission := by
  obtain ⟨db', hcommitted, hcoded, hroles, hothers⟩ := bootstrap_asCoded hok
  intro seeded
  rw [show seeded = db'.toTables from hcommitted, Tables.mem_queryPermissions_iff_grant,
    hothers.roleAssignments]
  refine exists_congr fun grant => and_congr_right fun hgrant => ?_
  rw [hothers.reaches, worth_seeded hcoded hroles hothers hgrant]

def viewedGrant : RoleAssignmentRow :=
  ⟨"g1", sampleUlid.text, .user, sampleUlid.text, "r1", .org, sampleUlid.text⟩

/-- Somebody is a viewer of an organization, and somebody gave viewers the secrets. -/
def viewedDb : Db :=
  { tamperedDb with
    roleAssignments := [viewedGrant]
    roleAssignments_key := by simp
    roleAssignments_once := by simp
    roleAssignments_org := by
      simp [viewedGrant, tamperedDb, sampleDb, Db.granting, Id.toCanonical]
    roleAssignments_role := by simp [viewedGrant, tamperedDb] }

theorem viewed_runs :
    (bootstrap 1 sampleFresh ⟨viewedDb.toTables, viewedDb.toTables, []⟩).result = .ok () := by
  refine bootstrap_runs viewedDb _ (fun p => ?_) sampleFresh_inj sampleFresh_unused
  exact List.mem_map.2 ⟨p, p.mem_all, rfl⟩

theorem viewed_reaches : viewedDb.Reaches viewedGrant sampleUser (.org ⟨sampleUlid⟩) :=
  ⟨_, rfl, rfl, .inl ⟨.inl rfl, rfl⟩, Scope.coveredBy_iff.2 List.mem_cons_self⟩

theorem viewed_ofRole : viewedDb.OfRole viewedGrant role ↔ role = .viewer := by
  constructor
  · rintro ⟨row, hrow, hid, -, hkey⟩
    rcases List.mem_cons.1 hrow with rfl | hrow
    · exact (SystemRole.key_inj (show SystemRole.viewer.key = role.key from hkey)).symm
    · rw [List.mem_singleton.1 hrow] at hid
      exact absurd hid (by decide)
  · rintro rfl
    exact ⟨_, List.mem_cons_self, rfl, rfl, rfl⟩

/-- Seeding takes the secrets back. -/
theorem viewed_as_coded :
    let seeded :=
      (bootstrap 1 sampleFresh ⟨viewedDb.toTables, viewedDb.toTables, []⟩).world.committed
    .runRead ∈ seeded.queryPermissions sampleUser (.org ⟨sampleUlid⟩) ∧
      .secretRead ∉ seeded.queryPermissions sampleUser (.org ⟨sampleUlid⟩) := by
  have hheld := granted_as_coded viewedDb 1 sampleFresh viewedDb.toTables [] viewed_runs sampleUser
    (.org ⟨sampleUlid⟩)
  refine ⟨(hheld _).2 ?_, fun h => ?_⟩
  · exact ⟨viewedGrant, List.mem_cons_self, viewed_reaches,
      .inl ⟨.viewer, viewed_ofRole.2 rfl, by decide⟩⟩
  · obtain ⟨grant, hgrant, -, hworth⟩ := (hheld _).1 h
    obtain rfl : grant = viewedGrant := List.mem_singleton.1 hgrant
    rcases hworth with ⟨role, hrole, hp⟩ | ⟨hno, -⟩
    · rw [viewed_ofRole.1 hrole] at hp
      exact absurd hp (by decide)
    · exact hno .viewer (viewed_ofRole.2 rfl)

end Seeded

section Regrading

namespace Tables

variable {t : Tables} {grant : RoleAssignmentRow} {roleId : String} {role : SystemRole}
  {principal : Principal} {scope : Scope} {permission : Permission}

theorem mem_regraded : permission ∈ (t.regraded grant roleId).queryPermissions principal scope ↔
    ∃ a ∈ t.roleAssignments, t.Reaches a principal scope ∧
      t.Bestows (if a = grant then { a with roleId } else a) permission := by
  rw [mem_queryPermissions_iff_grant]
  constructor
  · rintro ⟨a', ha', hreaches, hbestows⟩
    obtain ⟨a, ha, rfl⟩ := List.mem_map.1 ha'
    refine ⟨a, ha, ?_, hbestows⟩
    split_ifs at hreaches <;> exact hreaches
  · rintro ⟨a, ha, hreaches, hbestows⟩
    refine ⟨_, List.mem_map.2 ⟨a, ha, rfl⟩, ?_, hbestows⟩
    split_ifs <;> exact hreaches

/-- What does not reach the principal may be of any role. -/
theorem regraded_of_not_reaches (hno : ¬t.Reaches grant principal scope) :
    (t.regraded grant roleId).queryPermissions principal scope
      = t.queryPermissions principal scope := by
  ext permission
  rw [mem_regraded, mem_queryPermissions_iff_grant]
  refine exists_congr fun a => and_congr_right fun _ => and_congr_right fun hreaches => ?_
  rw [if_neg]
  rintro rfl
  exact hno hreaches

theorem regraded_subset (h : ∀ permission, t.Bestows grant permission →
      t.Bestows { grant with roleId } permission) :
    t.queryPermissions principal scope
      ⊆ (t.regraded grant roleId).queryPermissions principal scope := by
  intro permission hheld
  rw [mem_queryPermissions_iff_grant] at hheld
  obtain ⟨a, ha, hreaches, hbestows⟩ := hheld
  refine mem_regraded.2 ⟨a, ha, hreaches, ?_⟩
  split_ifs with heq
  · subst heq
    exact h permission hbestows
  · exact hbestows

theorem AsCoded.only (h : t.AsCoded) (hgrant : grant ∈ t.roleAssignments)
    (honly : t.Only grant principal scope) (hrole : t.OfRole grant role) :
    t.queryPermissions principal scope = role.permissions.toFinset := by
  ext permission
  rw [mem_queryPermissions_iff_grant, List.mem_toFinset, ← h.bestows hrole]
  constructor
  · rintro ⟨a, ha, hreaches, hbestows⟩
    rw [← honly.2 a ha hreaches]
    exact hbestows
  · exact fun hbestows => ⟨grant, hgrant, honly.1, hbestows⟩

theorem AsCoded.only_regraded (h : t.AsCoded) (hgrant : grant ∈ t.roleAssignments)
    (honly : t.Only grant principal scope) (hrole : t.OfRole { grant with roleId } role) :
    (t.regraded grant roleId).queryPermissions principal scope = role.permissions.toFinset := by
  ext permission
  rw [mem_regraded, List.mem_toFinset, ← h.bestows hrole]
  constructor
  · rintro ⟨a, ha, hreaches, hbestows⟩
    rw [honly.2 a ha hreaches, if_pos rfl] at hbestows
    exact hbestows
  · intro hbestows
    refine ⟨grant, hgrant, honly.1, ?_⟩
    rw [if_pos rfl]
    exact hbestows

end Tables

/-- After a start that went well, a grant of a built-in role is made one of another built-in role.
Who climbs takes nothing from anybody, wherever else they hold grants, and who the grant does not
reach sees no difference. Somebody with nothing but that grant has all of the new role and nothing
else, so every other move costs them something. -/
theorem promotion_adds (db : Db) (now : Int) (fresh : SystemRole → Ulid) (transaction : Tables)
    (faults : List (Option StoreError)) {seeded : Tables}
    (hok : (bootstrap now fresh ⟨db.toTables, transaction, faults⟩).result = .ok ())
    (hseeded : (bootstrap now fresh ⟨db.toTables, transaction, faults⟩).world.committed = seeded)
    {grant : RoleAssignmentRow} {row : RoleRow} {lower higher : SystemRole}
    (hgrant : grant ∈ seeded.roleAssignments) (hlower : seeded.OfRole grant lower)
    (hrow : row ∈ seeded.roles) (hhigher : row.IsBuiltIn higher) (principal : Principal)
    (scope : Scope) :
    let held := seeded.queryPermissions principal scope
    let moved := (seeded.regraded grant row.id).queryPermissions principal scope
    (lower.Below higher → held ⊆ moved) ∧
      (¬seeded.Reaches grant principal scope → moved = held) ∧
      (seeded.Only grant principal scope → held = lower.permissions.toFinset ∧
        moved = higher.permissions.toFinset ∧ (held ⊆ moved ↔ lower.Below higher)) := by
  obtain ⟨db', hcommitted, hcoded, -⟩ := bootstrap_asCoded hok
  obtain rfl : db'.toTables = seeded := hcommitted.symm.trans hseeded
  intro held moved
  have hmoved : db'.OfRole { grant with roleId := row.id } higher := ⟨row, hrow, rfl, hhigher⟩
  refine ⟨fun hbelow => ?_, Tables.regraded_of_not_reaches, fun honly => ?_⟩
  · refine Tables.regraded_subset fun permission hbestows => ?_
    rw [hcoded.bestows hmoved, ← List.mem_toFinset]
    exact SystemRole.below_iff.1 hbelow (List.mem_toFinset.2 ((hcoded.bestows hlower).1 hbestows))
  · have hbefore : held = _ := hcoded.only hgrant honly hlower
    have hafter : moved = _ := hcoded.only_regraded hgrant honly hmoved
    refine ⟨hbefore, hafter, ?_⟩
    rw [hbefore, hafter, SystemRole.below_iff]

/-- The viewer becomes a maintainer. -/
theorem viewer_promoted : ∃ seeded row,
    (bootstrap 1 sampleFresh ⟨viewedDb.toTables, viewedDb.toTables, []⟩).world.committed = seeded ∧
      row ∈ seeded.roles ∧ row.IsBuiltIn .maintainer ∧
      (seeded.regraded viewedGrant row.id).queryPermissions sampleUser (.org ⟨sampleUlid⟩)
        = SystemRole.maintainer.permissions.toFinset := by
  obtain ⟨db', hcommitted, hcoded, hroles, hothers⟩ := bootstrap_asCoded viewed_runs
  obtain ⟨row, hrows, -⟩ := hcoded .maintainer
  have hrow : row ∈ db'.roles ∧ row.IsBuiltIn .maintainer := by
    have hmem := List.mem_filter.1 (hrows ▸ List.mem_cons_self : row ∈ db'.roles.filter _)
    exact ⟨hmem.1, of_decide_eq_true hmem.2⟩
  have hgrants : db'.roleAssignments = [viewedGrant] := hothers.roleAssignments
  refine ⟨db'.toTables, row, hcommitted, hrow.1, hrow.2, ?_⟩
  exact ((promotion_adds viewedDb 1 sampleFresh viewedDb.toTables [] viewed_runs hcommitted
    (hgrants ▸ List.mem_cons_self)
    ((ofRole_seeded hroles List.mem_cons_self).2 (viewed_ofRole.2 rfl)) hrow.1 hrow.2 sampleUser
    (.org ⟨sampleUlid⟩)).2.2 ⟨(hothers.reaches _ _).2 viewed_reaches,
      fun a ha _ => List.mem_singleton.1 (hgrants ▸ ha)⟩).2.1

end Regrading

end Jetrun
