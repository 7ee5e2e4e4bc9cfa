import Jetrun.Bootstrap
import Jetrun.Proofs.Authz

/-!
# Seeding reconciles the built-in roles

One turn of the loop leaves the role with one row and with the permissions of the code, and every
other role as it was; turns for different roles do not get in each other's way. Until the commit
nothing happens to the tables that others see.
-/

namespace Jetrun

namespace SystemRole

theorem mem_all (role : SystemRole) : role ∈ all := by
  cases role <;> decide

theorem key_inj {role role' : SystemRole} (h : role.key = role'.key) : role = role' := by
  cases role <;> cases role' <;> first | rfl | exact absurd h (by decide)

theorem permissions_nodup (role : SystemRole) : role.permissions.Nodup := by
  cases role <;> decide

end SystemRole

section BuiltIn

variable {row row' : RoleRow} {role role' : SystemRole}

theorem RoleRow.IsBuiltIn.role_eq (h : row.IsBuiltIn role) (h' : row.IsBuiltIn role') :
    role = role' :=
  SystemRole.key_inj (h.2.symm.trans h'.2)

theorem newRole_isBuiltIn (now : Int) (fresh : SystemRole → Ulid) (role : SystemRole) :
    (newRole now fresh role).IsBuiltIn role :=
  ⟨rfl, rfl⟩

namespace Db

variable (db : Db)

theorem role_of_id (h : row ∈ db.roles) (h' : row' ∈ db.roles) (hid : row.id = row'.id) :
    row = row' :=
  List.inj_on_of_nodup_map db.roles_key h h' hid

theorem role_of_builtIn (h : row ∈ db.roles) (h' : row' ∈ db.roles) (hrole : row.IsBuiltIn role)
    (hrole' : row'.IsBuiltIn role) : row = row' := by
  refine List.inj_on_of_nodup_map db.roles_name h h' ?_
  rw [hrole.1, hrole.2, hrole'.1, hrole'.2]

theorem builtIn_rows (h : row ∈ db.roles) (hrole : row.IsBuiltIn role) :
    db.roles.filter (·.IsBuiltIn role) = [row] := by
  have hnodup : (db.roles.filter (·.IsBuiltIn role)).Nodup := (db.roles_key.of_map _).filter _
  refine List.perm_singleton.1 ((List.perm_ext_iff_of_nodup hnodup (List.nodup_singleton _)).2
    fun row' => ?_)
  rw [List.mem_filter, List.mem_singleton, decide_eq_true_eq]
  constructor
  · rintro ⟨hmem, hrole'⟩
    exact db.role_of_builtIn hmem h hrole' hrole
  · rintro rfl
    exact ⟨h, hrole⟩

theorem builtIn_none (h : ∀ row ∈ db.roles, ¬row.IsBuiltIn role) :
    db.roles.filter (·.IsBuiltIn role) = [] := by
  rw [List.filter_eq_nil_iff]
  intro row hrow hrole
  exact h row hrow (of_decide_eq_true hrole)

theorem systemRoleId_eq_some {id : String} (h : db.systemRoleId role.key = some id) :
    ∃ row ∈ db.roles, row.IsBuiltIn role ∧ row.id = id := by
  obtain ⟨row, hfind, rfl⟩ := Option.map_eq_some_iff.1 h
  exact ⟨row, List.mem_of_find?_eq_some hfind, of_decide_eq_true (List.find?_some
    (p := fun r : RoleRow => decide (r.orgId = none ∧ r.key = role.key)) hfind), rfl⟩

theorem systemRoleId_eq_none (h : db.systemRoleId role.key = none) :
    ∀ row ∈ db.roles, ¬row.IsBuiltIn role := by
  intro row hrow hrole
  have hfind := List.find?_eq_none.1 (Option.map_eq_none_iff.1 h) row hrow
  exact hfind (decide_eq_true hrole)

end Db

end BuiltIn

section Calls

open Traced Database

variable {α : Type} {ok : Empty → Prop} {Q : Except StoreError α → Database → List Empty → Prop}
  {w : Database} {h : List Empty}

/-- A call fails, or does what it says with fewer calls to come. -/
theorem leads_call {f : Database → Except StoreError α × Database}
    (hfault : ∀ e faults, some e ∈ w.faults → Q (.error e) { w with faults } h)
    (hrun : ∀ faults, faults ⊆ w.faults →
      Q (f { w with faults }).1 (f { w with faults }).2 h) : Leads ok (call f) Q w h := by
  unfold call
  refine leads_act_bind ?_
  show Leads ok (ofExcept (attempt f w).1) Q (attempt f w).2 h
  refine leads_ofExcept ?_
  unfold attempt
  rcases hf : w.faults with _ | ⟨_ | e, faults⟩
  · have hw := hrun [] (List.nil_subset _)
    rw [show w = { w with faults := [] } by rw [← hf]]
    exact hw
  · exact hrun faults (by rw [hf]; exact List.subset_cons_self _ _)
  · exact hfault e faults (by rw [hf]; exact List.mem_cons_self)

theorem leads_execute {statement : Tables → Except StoreError Tables}
    {Q : Except StoreError Unit → Database → List Empty → Prop}
    (hfault : ∀ e faults, some e ∈ w.faults → Q (.error e) { w with faults } h)
    (hok : ∀ t faults, statement w.transaction = .ok t → faults ⊆ w.faults →
      Q (.ok ()) { w with transaction := t, faults } h)
    (herror : ∀ e faults, statement w.transaction = .error e → faults ⊆ w.faults →
      Q (.error e) { w with faults } h) : Leads ok (execute statement) Q w h := by
  refine leads_call hfault fun faults hfaults => ?_
  rcases hs : statement w.transaction with e | t
  · exact herror e faults hs hfaults
  · exact hok t faults hs hfaults

theorem leads_fetchOne {query : Tables → Option α}
    (hfault : ∀ e faults, some e ∈ w.faults → Q (.error e) { w with faults } h)
    (hsome : ∀ x faults, query w.transaction = some x → faults ⊆ w.faults →
      Q (.ok x) { w with faults } h)
    (hnone : ∀ e faults, query w.transaction = none → faults ⊆ w.faults →
      Q (.error e) { w with faults } h) : Leads ok (fetchOne query) Q w h := by
  refine leads_call hfault fun faults hfaults => ?_
  rcases hq : query w.transaction with _ | x
  · exact hnone _ faults hq hfaults
  · exact hsome x faults hq hfaults

end Calls

section Turning

open Traced Database

variable {now : Int} {fresh : SystemRole → Ulid} {role : SystemRole} {row : RoleRow} {a b : Db}

def grantRow (row : RoleRow) (p : Permission) : RolePermissionRow := ⟨row.id, p.asStr⟩

theorem grantRow_inj (row : RoleRow) : Function.Injective (grantRow row) := fun _ _ h =>
  Permission.asStr_inj (congrArg RolePermissionRow.permissionKey h)

/-- What a turn of the loop does to the tables: `row` is the one the role had or a new one. -/
structure Turn (now : Int) (fresh : SystemRole → Ulid) (role : SystemRole) (row : RoleRow)
    (a b : Db) : Prop where
  builtIn : row.IsBuiltIn role
  roles : row ∈ a.roles ∧ b.roles = a.roles ∨
    row = newRole now fresh role ∧ b.roles = a.roles ++ [row] ∧ ∀ r ∈ a.roles, ¬r.IsBuiltIn role
  permissions : b.rolePermissions
    = a.rolePermissions.filter (·.roleId ≠ row.id) ++ role.permissions.map (grantRow row)
  rest : { b.toTables with roles := a.roles, rolePermissions := a.rolePermissions } = a.toTables

theorem insertOrIgnoreRole_cases (a : Db) (hrow : row.IsBuiltIn role) (hsystem : row.isSystem = true) :
    a.insertOrIgnoreRole row = .ok a.toTables ∧
        (row.id ∈ a.roles.map (·.id) ∨ ∃ r ∈ a.roles, r.IsBuiltIn role) ∨
      ∃ b : Db, a.insertOrIgnoreRole row = .ok b.toTables ∧ b.roles = a.roles ++ [row] ∧
        (∀ r ∈ a.roles, ¬r.IsBuiltIn role) ∧ b.rolePermissions = a.rolePermissions ∧
        { b.toTables with roles := a.roles } = a.toTables := by
  have hname : (row.orgId, row.key) ∈ a.roles.map (fun r => (r.orgId, r.key)) ↔
      ∃ r ∈ a.roles, r.IsBuiltIn role := by
    rw [List.mem_map]
    refine exists_congr fun r => and_congr_right fun _ => ?_
    rw [Prod.mk.injEq, hrow.1, hrow.2]
    rfl
  unfold Tables.insertOrIgnoreRole
  split_ifs with hconflict
  · exact .inl ⟨rfl, hconflict.imp_right hname.1⟩
  · obtain ⟨hid, hkey⟩ := not_or.1 hconflict
    have horg : ∀ org ∈ row.orgId, org ∈ a.organizations := by
      rw [hrow.1]
      exact fun org h => absurd h (Option.not_mem_none org)
    have hcheck : row.isSystem = true ↔ row.orgId = none := iff_of_true hsystem hrow.1
    refine .inr ⟨a.withRole row hid hkey hcheck horg, rfl, rfl, fun r hr hbuiltIn => ?_, rfl, rfl⟩
    exact hkey (hname.2 ⟨r, hr, hbuiltIn⟩)

theorem insertRolePermission_cases {t : Tables} {rp : RolePermissionRow}
    (hnew : rp ∉ t.rolePermissions) :
    t.insertRolePermission rp = .ok { t with rolePermissions := t.rolePermissions ++ [rp] } ∧
        rp.permissionKey ∈ t.permissions ∨
      (∃ e, t.insertRolePermission rp = .error e) ∧
        ¬(rp.roleId ∈ t.roles.map (·.id) ∧ rp.permissionKey ∈ t.permissions) := by
  unfold Tables.insertRolePermission
  rw [if_neg hnew]
  split_ifs with hkeys
  · exact .inl ⟨rfl, hkeys.2⟩
  · exact .inr ⟨⟨_, rfl⟩, hkeys⟩

/-- The permissions of a role that is there, replaced by others of the catalog. -/
theorem exists_regranted (a : Db) (hrow : row ∈ a.roles)
    (hcatalog : ∀ p ∈ role.permissions, p.asStr ∈ a.permissions) :
    ∃ b : Db, b.toTables = { a.toTables with
      rolePermissions := a.rolePermissions.filter (·.roleId ≠ row.id) ++
        role.permissions.map (grantRow row) } := by
  refine ⟨a.withRolePermissions _ ?_ ?_ ?_, rfl⟩
  · rw [List.map_append]
    refine List.Nodup.append (a.rolePermissions_key.sublist (List.filter_sublist.map _)) ?_ ?_
    · rw [List.map_map]
      refine role.permissions_nodup.map fun p q h => ?_
      exact Permission.asStr_inj (congrArg Prod.snd h)
    · intro k hk hk'
      obtain ⟨rp, hrp, rfl⟩ := List.mem_map.1 hk
      obtain ⟨_, hnew, heq⟩ := List.mem_map.1 hk'
      obtain ⟨p, -, rfl⟩ := List.mem_map.1 hnew
      exact of_decide_eq_true (List.mem_filter.1 hrp).2 (congrArg Prod.fst heq).symm
  · intro rp hrp
    rcases List.mem_append.1 hrp with hrp | hrp
    · exact a.rolePermissions_role rp (List.mem_of_mem_filter hrp)
    · obtain ⟨p, -, rfl⟩ := List.mem_map.1 hrp
      exact List.mem_map.2 ⟨row, hrow, rfl⟩
  · intro rp hrp
    rcases List.mem_append.1 hrp with hrp | hrp
    · exact a.rolePermissions_permission rp (List.mem_of_mem_filter hrp)
    · obtain ⟨p, hp, rfl⟩ := List.mem_map.1 hrp
      exact hcatalog p hp

variable {ok : Empty → Prop} {Q : Except StoreError Unit → Database → List Empty → Prop}
  {w : Database} {h : List Empty} {calm : Prop}

/-- Re-adding the permissions, one after the other. -/
theorem regrant_leads (hrow : row ∈ a.roles) (base : List RolePermissionRow)
    (hbase : ∀ rp ∈ base, rp.roleId ≠ row.id) (hcalm : calm → w.faults = [])
    (hcatalog : calm → ∀ p : Permission, p.asStr ∈ a.permissions)
    (hw : w.transaction = { a.toTables with rolePermissions := base })
    (hok : ∀ w', w'.committed = w.committed → (calm → w'.faults = []) →
      (∀ p ∈ role.permissions, p.asStr ∈ a.permissions) →
      w'.transaction = { a.toTables with
        rolePermissions := base ++ role.permissions.map (grantRow row) } → Q (.ok ()) w' h)
    (herror : ∀ e w', w'.committed = w.committed → ¬calm → Q (.error e) w' h) :
    Leads ok (role.permissions.forM fun perm => execute (·.insertRolePermission ⟨row.id, perm.asStr⟩))
      Q w h := by
  refine leads_forM (I := fun ps w' h' => h' = h ∧ w'.committed = w.committed ∧
    (calm → w'.faults = []) ∧ ∃ before, role.permissions = before ++ ps ∧
      (∀ p ∈ before, p.asStr ∈ a.permissions) ∧
      w'.transaction = { a.toTables with rolePermissions := base ++ before.map (grantRow row) })
    ?_ ?_ role.permissions w h ⟨rfl, rfl, hcalm, [], rfl, by simp, by simpa using hw⟩
  · rintro p ps w' h' ⟨rfl, hcommitted, hcalm', before, hsplit, hbefore, htables⟩
    have hnew : grantRow row p ∉ w'.transaction.rolePermissions := by
      rw [htables]
      intro hmem
      rcases List.mem_append.1 hmem with hmem | hmem
      · exact hbase _ hmem rfl
      · obtain ⟨q, hq, heq⟩ := List.mem_map.1 hmem
        have hnodup := role.permissions_nodup
        rw [hsplit] at hnodup
        exact List.disjoint_of_nodup_append hnodup (grantRow_inj row heq ▸ hq) List.mem_cons_self
    refine leads_execute (fun e faults hfault => ?_) (fun t faults ht hfaults => ?_)
      fun e faults he hfaults => ?_
    · exact herror e _ hcommitted fun hc => by simp [hcalm' hc] at hfault
    · rcases insertRolePermission_cases hnew with ⟨hdone, hkey⟩ | ⟨⟨e, he⟩, -⟩
      · refine ⟨rfl, hcommitted, fun hc => List.subset_nil.1 (hcalm' hc ▸ hfaults), before ++ [p],
          by simp [hsplit], ?_, ?_⟩
        · intro q hq
          rcases List.mem_append.1 hq with hq | hq
          · exact hbefore q hq
          · cases List.mem_singleton.1 hq
            rw [htables] at hkey
            exact hkey
        · cases ht.symm.trans hdone
          rw [htables, List.map_append, ← List.append_assoc]
          rfl
      · cases ht.symm.trans he
    · refine herror e _ hcommitted fun hc => ?_
      rcases insertRolePermission_cases hnew with ⟨hdone, -⟩ | ⟨-, hkeys⟩
      · cases he.symm.trans hdone
      · rw [htables] at hkeys
        exact hkeys ⟨List.mem_map.2 ⟨row, hrow, rfl⟩, hcatalog hc p⟩
  · rintro w' h' ⟨rfl, hcommitted, hcalm', before, hsplit, hbefore, htables⟩
    rw [List.append_nil] at hsplit
    rw [← hsplit] at hbefore htables
    exact hok w' hcommitted hcalm' hbefore htables

/-- Clearing the permissions of the row that was read back, and re-adding those of the code. -/
theorem regranting_leads (a : Db) (hrow : row ∈ a.roles) (hcalm : calm → w.faults = [])
    (hcatalog : calm → ∀ p : Permission, p.asStr ∈ a.permissions) (hw : w.transaction = a.toTables)
    (hok : ∀ (w' : Database) (b : Db), w'.committed = w.committed → (calm → w'.faults = []) →
      w'.transaction = b.toTables → b.toTables = { a.toTables with
        rolePermissions := a.rolePermissions.filter (·.roleId ≠ row.id) ++
          role.permissions.map (grantRow row) } → Q (.ok ()) w' h)
    (herror : ∀ e w', w'.committed = w.committed → ¬calm → Q (.error e) w' h) :
    Leads ok (do
      execute (·.deleteRolePermissions row.id)
      role.permissions.forM fun perm => execute (·.insertRolePermission ⟨row.id, perm.asStr⟩))
      Q w h := by
  refine leads_bind (leads_execute (fun e faults hfault => ?_) (fun t faults ht hfaults => ?_)
    fun e faults he _ => by cases he)
  · exact herror e _ rfl fun hc => by simp [hcalm hc] at hfault
  · cases ht
    refine regrant_leads hrow (a.rolePermissions.filter (·.roleId ≠ row.id)) (fun rp hrp => ?_)
      (fun hc => List.subset_nil.1 (hcalm hc ▸ hfaults)) hcatalog ?_ (fun w' hc hf hcat ht => ?_)
      fun e w' hc hno => herror e w' hc hno
    · exact of_decide_eq_true (List.mem_filter.1 hrp).2
    · show { w.transaction with
        rolePermissions := w.transaction.rolePermissions.filter (·.roleId ≠ row.id) } = _
      rw [hw]
    · obtain ⟨b, hb⟩ := exists_regranted a hrow hcat
      exact hok w' b hc hf (ht.trans hb.symm) hb

/-- A turn of the loop. With nothing in its way it does not fail: the catalog is complete and the
new identifier is not taken. -/
theorem reconcile_leads (a : Db) (hcalm : calm → w.faults = [])
    (hcatalog : calm → ∀ p : Permission, p.asStr ∈ a.permissions)
    (hfresh : calm → (fresh role).text ∉ a.roles.map (·.id)) (hw : w.transaction = a.toTables)
    (hok : ∀ (w' : Database) (row : RoleRow) (b : Db), w'.committed = w.committed →
      (calm → w'.faults = []) → w'.transaction = b.toTables → Turn now fresh role row a b →
        Q (.ok ()) w' h)
    (herror : ∀ e w', w'.committed = w.committed → ¬calm → Q (.error e) w' h) :
    Leads ok (reconcile now fresh role) Q w h := by
  unfold reconcile
  have hbuiltIn := newRole_isBuiltIn now fresh role
  refine leads_bind (leads_execute (fun e faults hfault => ?_) (fun t faults ht hfaults => ?_)
    fun e faults he _ => ?_)
  · exact herror e _ rfl fun hc => by simp [hcalm hc] at hfault
  · have hcalm' : calm → faults = [] := fun hc => List.subset_nil.1 (hcalm hc ▸ hfaults)
    rw [hw] at ht
    rcases insertOrIgnoreRole_cases a hbuiltIn rfl with ⟨hdone, hwhy⟩ |
      ⟨a', hdone, hroles, hnone, hperms, hrest⟩
    · -- a row is in the way of the new one
      cases ht.symm.trans hdone
      refine leads_bind (leads_fetchOne (fun e faults' hfault => ?_) (fun x faults' hx hfaults' => ?_)
        fun e faults' hx _ => ?_)
      · exact herror e _ rfl fun hc => by simp [hcalm' hc] at hfault
      · obtain ⟨row, hrow, hrole, rfl⟩ := a.systemRoleId_eq_some hx
        refine regranting_leads a hrow (fun hc => List.subset_nil.1 (hcalm' hc ▸ hfaults')) hcatalog
          rfl (fun w' b hc hf hb htables => hok w' row b hc hf hb ?_) herror
        exact ⟨hrole, .inl ⟨hrow, by rw [htables]⟩, by rw [htables], by rw [htables]⟩
      · refine herror e _ rfl fun hc => ?_
        rcases hwhy with hid | ⟨r, hr, hrole⟩
        · exact hfresh hc hid
        · exact a.systemRoleId_eq_none hx r hr hrole
    · cases ht.symm.trans hdone
      have hnew : newRole now fresh role ∈ a'.roles := by
        rw [hroles]
        exact List.mem_append_right _ List.mem_cons_self
      refine leads_bind (leads_fetchOne (fun e faults' hfault => ?_) (fun x faults' hx hfaults' => ?_)
        fun e faults' hx _ => absurd hbuiltIn (a'.systemRoleId_eq_none hx _ hnew))
      · exact herror e _ rfl fun hc => by simp [hcalm' hc] at hfault
      · obtain ⟨row, hrow, hrole, rfl⟩ := a'.systemRoleId_eq_some hx
        obtain rfl := a'.role_of_builtIn hrow hnew hrole hbuiltIn
        have hpermissions : a'.permissions = a.permissions := by rw [← hrest]
        refine regranting_leads a' hnew (fun hc => List.subset_nil.1 (hcalm' hc ▸ hfaults'))
          (hpermissions ▸ hcatalog) rfl
          (fun w' b hc hf hb htables => hok w' (newRole now fresh role) b hc hf hb ?_) herror
        refine ⟨hbuiltIn, .inr ⟨rfl, ?_, hnone⟩, ?_, ?_⟩
        · rw [htables, hroles]
        · rw [htables, hperms]
        · rw [← hrest, htables]
  · rw [hw] at he
    rcases insertOrIgnoreRole_cases a hbuiltIn rfl with ⟨hdone, -⟩ | ⟨b, hdone, -⟩
    · cases he.symm.trans hdone
    · cases he.symm.trans hdone

end Turning

section Turns

variable {now : Int} {fresh : SystemRole → Ulid} {role role' : SystemRole} {row : RoleRow}
  {a b c : Db}

theorem Turn.mem (h : Turn now fresh role row a b) : row ∈ b.roles := by
  rcases h.roles with ⟨hrow, hroles⟩ | ⟨-, hroles, -⟩
  · rw [hroles]
    exact hrow
  · rw [hroles]
    exact List.mem_append_right _ List.mem_cons_self

theorem Turn.mem_roles (h : Turn now fresh role row a b) {r : RoleRow} :
    r ∈ b.roles ↔ r ∈ a.roles ∨ r = row := by
  rcases h.roles with ⟨hrow, hroles⟩ | ⟨-, hroles, -⟩
  · rw [hroles, iff_self_or]
    rintro rfl
    exact hrow
  · rw [hroles, List.mem_append, List.mem_singleton]

theorem Turn.mem_permissions (h : Turn now fresh role row a b) {rp : RolePermissionRow} :
    rp ∈ b.rolePermissions ↔ rp ∈ a.rolePermissions ∧ rp.roleId ≠ row.id ∨
      ∃ p ∈ role.permissions, grantRow row p = rp := by
  rw [h.permissions, List.mem_append, List.mem_filter, List.mem_map, decide_eq_true_eq]

theorem Turn.permissions_other (h : Turn now fresh role row a b) {rp : RolePermissionRow}
    (hne : rp.roleId ≠ row.id) : rp ∈ b.rolePermissions ↔ rp ∈ a.rolePermissions := by
  rw [h.mem_permissions]
  constructor
  · rintro (⟨hrp, -⟩ | ⟨p, -, rfl⟩)
    · exact hrp
    · exact absurd rfl hne
  · exact fun hrp => .inl ⟨hrp, hne⟩

/-- A turn leaves the rows of the other built-in roles alone. -/
theorem Turn.builtIn_other (h : Turn now fresh role row a b) (hne : role' ≠ role) :
    b.roles.filter (·.IsBuiltIn role') = a.roles.filter (·.IsBuiltIn role') := by
  rcases h.roles with ⟨-, hroles⟩ | ⟨-, hroles, -⟩
  · rw [hroles]
  · have hnot : ¬row.IsBuiltIn role' := fun hbuiltIn => hne (hbuiltIn.role_eq h.builtIn)
    rw [hroles, List.filter_append, List.filter_cons_of_neg (by simpa using hnot), List.filter_nil,
      List.append_nil]

theorem Turn.reconciled (h : Turn now fresh role row a b) :
    Tables.Reconciled now fresh a.toTables b.toTables role := by
  refine ⟨row, b.builtIn_rows h.mem h.builtIn, ?_, fun key => ?_⟩
  · rcases h.roles with ⟨hrow, -⟩ | ⟨hnew, -, hnone⟩
    · exact .inl (a.builtIn_rows hrow h.builtIn)
    · exact .inr ⟨a.builtIn_none hnone, hnew⟩
  · rw [h.mem_permissions]
    constructor
    · rintro (⟨-, hne⟩ | ⟨p, hp, heq⟩)
      · exact absurd rfl hne
      · exact ⟨p, hp, congrArg RolePermissionRow.permissionKey heq⟩
    · rintro ⟨p, hp, rfl⟩
      exact .inr ⟨p, hp, rfl⟩

/-- What a role was reconciled to, later turns for other roles keep. -/
theorem Turn.keeps_reconciled {t : Tables} (h : Turn now fresh role row a b) (hne : role' ≠ role)
    (hdone : Tables.Reconciled now fresh t a.toTables role') :
    Tables.Reconciled now fresh t b.toTables role' := by
  obtain ⟨r, hrows, hbefore, hperms⟩ := hdone
  have hr : r ∈ a.roles ∧ r.IsBuiltIn role' := by
    have hmem := List.mem_filter.1 (hrows ▸ List.mem_cons_self : r ∈ a.roles.filter _)
    exact ⟨hmem.1, of_decide_eq_true hmem.2⟩
  refine ⟨r, (h.builtIn_other hne).trans hrows, hbefore, fun key => ?_⟩
  rw [← hperms key]
  refine h.permissions_other fun hid => hne ?_
  obtain rfl := b.role_of_id (h.mem_roles.2 (.inl hr.1)) h.mem hid
  exact hr.2.role_eq h.builtIn

theorem Turn.reconciled_later {t : Tables} (h : Turn now fresh role row a b) (hne : role' ≠ role)
    (hdone : Tables.Reconciled now fresh b.toTables t role') :
    Tables.Reconciled now fresh a.toTables t role' := by
  obtain ⟨r, hrows, hbefore, hperms⟩ := hdone
  rw [h.builtIn_other hne] at hbefore
  exact ⟨r, hrows, hbefore, hperms⟩

theorem Turn.others (h : Turn now fresh role row a b) : a.OthersKept b.toTables where
  roles r hr := by
    rw [h.mem_roles, or_iff_left]
    rintro rfl
    exact hr role h.builtIn
  permissions rp hrp := h.permissions_other fun hid => hrp row h.mem hid.symm role h.builtIn
  rest := h.rest

theorem othersKept_trans (h : a.OthersKept b.toTables) (h' : b.OthersKept c.toTables)
    (hroles : b.roles ⊆ c.roles) : a.OthersKept c.toTables where
  roles r hr := (h'.roles r hr).trans (h.roles r hr)
  permissions rp hrp :=
    (h'.permissions rp hrp).trans (h.permissions rp fun r hr => hrp r (hroles hr))
  rest := by
    rw [← h.rest, ← h'.rest]

/-- Turns for the roles, one after the other. -/
def Turns (now : Int) (fresh : SystemRole → Ulid) : List SystemRole → Db → Db → Prop
  | [], a, b => a = b
  | role :: roles, a, c => ∃ row b, Turn now fresh role row a b ∧ Turns now fresh roles b c

theorem Turns.snoc : ∀ {roles : List SystemRole} {a b : Db}, Turns now fresh roles a b →
    Turn now fresh role row b c → Turns now fresh (roles ++ [role]) a c
  | [], a, b, h, hturn => by
    cases h
    exact ⟨row, c, hturn, rfl⟩
  | _ :: _, a, b, ⟨row', d, h, hrest⟩, hturn => ⟨row', d, h, hrest.snoc hturn⟩

theorem Turns.keeps_reconciled {t : Tables} : ∀ {roles : List SystemRole} {a b : Db},
    Turns now fresh roles a b → role ∉ roles → Tables.Reconciled now fresh t a.toTables role →
      Tables.Reconciled now fresh t b.toTables role
  | [], a, b, h, _, hdone => by
    cases h
    exact hdone
  | _ :: _, a, b, ⟨row, d, h, hrest⟩, hno, hdone => by
    obtain ⟨hne, hno⟩ := not_or.1 (List.mem_cons.not.1 hno)
    exact hrest.keeps_reconciled hno (h.keeps_reconciled hne hdone)

/-- Every role that had its turn is as the code says. -/
theorem Turns.reconciled : ∀ {roles : List SystemRole} {a b : Db}, Turns now fresh roles a b →
    roles.Nodup → ∀ role ∈ roles, Tables.Reconciled now fresh a.toTables b.toTables role
  | _ :: _, a, b, ⟨row, d, h, hrest⟩, hnodup, role, hrole => by
    obtain ⟨hno, hnodup⟩ := List.nodup_cons.1 hnodup
    rcases List.mem_cons.1 hrole with rfl | hrole
    · exact hrest.keeps_reconciled hno h.reconciled
    · exact h.reconciled_later (fun heq => hno (heq ▸ hrole)) (hrest.reconciled hnodup role hrole)

theorem Turns.others : ∀ {roles : List SystemRole} {a b : Db}, Turns now fresh roles a b →
    a.roles ⊆ b.roles ∧ a.OthersKept b.toTables
  | [], a, b, h => by
    cases h
    exact ⟨List.Subset.refl _, fun _ _ => Iff.rfl, fun _ _ => Iff.rfl, rfl⟩
  | _ :: _, a, b, ⟨row, d, h, hrest⟩ => by
    obtain ⟨hsub, hothers⟩ := hrest.others
    refine ⟨fun r hr => hsub (h.mem_roles.2 (.inl hr)), ?_⟩
    exact othersKept_trans h.others hothers hsub

/-- Turns on tables that are as the code says change nothing. -/
theorem sameRows_of_reconciled {now' : Int} {fresh' : SystemRole → Ulid} {t : Tables}
    (hdone : ∀ role, Tables.Reconciled now fresh t a.toTables role)
    (hagain : ∀ role, Tables.Reconciled now' fresh' a.toTables b.toTables role)
    (hsub : a.roles ⊆ b.roles) (hothers : a.OthersKept b.toTables) :
    a.SameRows b.toTables := by
  have hrow : ∀ role, ∃ row, a.roles.filter (·.IsBuiltIn role) = [row] ∧
      b.roles.filter (·.IsBuiltIn role) = [row] ∧
      ∀ key, ⟨row.id, key⟩ ∈ a.rolePermissions ↔ ⟨row.id, key⟩ ∈ b.rolePermissions := by
    intro role
    obtain ⟨row, hrows, -, hperms⟩ := hdone role
    obtain ⟨row', hrows', hbefore, hperms'⟩ := hagain role
    rcases hbefore with hbefore | ⟨hbefore, -⟩
    · cases hrows.symm.trans hbefore
      exact ⟨row, hrows, hrows', fun key => (hperms key).trans (hperms' key).symm⟩
    · cases hrows.symm.trans hbefore
  have hroles : a.roles.Perm b.roles := by
    refine (List.perm_ext_iff_of_nodup (a.roles_key.of_map _) (b.roles_key.of_map _)).2
      fun r => ⟨fun hr => hsub hr, fun hr => ?_⟩
    by_cases hr' : ∀ role, ¬r.IsBuiltIn role
    · exact (hothers.roles r hr').1 hr
    · push Not at hr'
      obtain ⟨role, hbuiltIn⟩ := hr'
      obtain ⟨row, hrows, hrows', -⟩ := hrow role
      have hmem : r ∈ b.roles.filter (·.IsBuiltIn role) :=
        List.mem_filter.2 ⟨hr, decide_eq_true hbuiltIn⟩
      rw [hrows', ← hrows] at hmem
      exact List.mem_of_mem_filter hmem
  refine ⟨hroles, (List.perm_ext_iff_of_nodup (a.rolePermissions_key.of_map _)
    (b.rolePermissions_key.of_map _)).2 fun rp => ?_, hothers.rest⟩
  by_cases hrp : ∀ row ∈ b.roles, row.id = rp.roleId → ∀ role, ¬row.IsBuiltIn role
  · exact (hothers.permissions rp hrp).symm
  · push Not at hrp
    obtain ⟨r, hr, hid, role, hbuiltIn⟩ := hrp
    obtain ⟨row, -, hrows', hperms⟩ := hrow role
    have hmem : r ∈ b.roles.filter (·.IsBuiltIn role) :=
      List.mem_filter.2 ⟨hr, decide_eq_true hbuiltIn⟩
    rw [hrows', List.mem_singleton] at hmem
    have hsame := hperms rp.permissionKey
    rw [← hmem, hid] at hsame
    exact hsame

end Turns

section Running

open Traced Database

variable {now : Int} {fresh : SystemRole → Ulid} {w : Database} {h : List Empty}
  {ok : Empty → Prop} {calm : Prop}

theorem missingFrom_eq_nil {catalog : List String} :
    missingFrom catalog = [] ↔ ∀ p : Permission, p.asStr ∈ catalog := by
  unfold missingFrom
  rw [List.filter_eq_nil_iff, List.forall_mem_map]
  constructor
  · intro hall p
    by_contra hno
    exact hall p p.mem_all (decide_eq_true hno)
  · intro hall p _ hno
    exact of_decide_eq_true hno (hall p)

/-- The check of the catalog lets pass what has every permission, and changes nothing. -/
theorem verifyPermissionCatalog_leads {Q : Except StoreError Unit → Database → List Empty → Prop}
    (hcalm : calm → w.faults = [])
    (hcatalog : calm → ∀ p : Permission, p.asStr ∈ w.committed.permissions)
    (hok : ∀ faults, faults ⊆ w.faults → (∀ p : Permission, p.asStr ∈ w.committed.permissions) →
      Q (.ok ()) { w with faults } h)
    (herror : ∀ e faults, ¬calm → Q (.error e) { w with faults } h) :
    Leads ok verifyPermissionCatalog Q w h := by
  unfold verifyPermissionCatalog
  refine leads_bind (leads_call (fun e faults hfault => ?_) fun faults hfaults => ?_)
  · exact herror e faults fun hc => by simp [hcalm hc] at hfault
  · show Leads ok (if missingFrom w.committed.permissions ≠ [] then _ else _) Q _ h
    split_ifs with hmissing
    · refine leads_ofExcept (herror _ faults fun hc => hmissing ?_)
      exact missingFrom_eq_nil.2 (hcatalog hc)
    · exact leads_pure (hok faults hfaults (missingFrom_eq_nil.1 (not_not.1 hmissing)))

/-- The loop over the built-in roles, as the transaction sees it. -/
theorem reconcileAll_leads {Q : Except StoreError Unit → Database → List Empty → Prop} (db : Db)
    (hw : w.transaction = db.toTables) (hcalm : calm → w.faults = [])
    (hcatalog : calm → ∀ p : Permission, p.asStr ∈ db.permissions)
    (hfresh : calm → Function.Injective fresh ∧ ∀ role, (fresh role).text ∉ db.roles.map (·.id))
    (hok : ∀ (w' : Database) (b : Db), w'.committed = w.committed → (calm → w'.faults = []) →
      w'.transaction = b.toTables → Turns now fresh SystemRole.all db b → Q (.ok ()) w' h)
    (herror : ∀ e w', w'.committed = w.committed → ¬calm → Q (.error e) w' h) :
    Leads ok (SystemRole.all.forM (reconcile now fresh)) Q w h := by
  refine leads_forM (I := fun roles w' h' => h' = h ∧ w'.committed = w.committed ∧
    (calm → w'.faults = []) ∧ ∃ before b, SystemRole.all = before ++ roles ∧
      Turns now fresh before db b ∧ w'.transaction = b.toTables ∧
      (calm → ∀ role ∈ roles, (fresh role).text ∉ b.roles.map (·.id)))
    ?_ ?_ _ w h ⟨rfl, rfl, hcalm, [], db, rfl, rfl, hw, fun hc role _ => (hfresh hc).2 role⟩
  · rintro role roles w' h' ⟨rfl, hcommitted, hcalm', before, b, hsplit, hturns, htables, hunused⟩
    have hpermissions : b.permissions = db.permissions := by rw [← hturns.others.2.rest]
    refine reconcile_leads b hcalm' (hpermissions ▸ hcatalog)
      (fun hc => hunused hc role List.mem_cons_self) htables
      (fun w'' row c hc' hf hc hturn => ?_) fun e w'' hc' hno => herror e w'' (hc'.trans hcommitted) hno
    refine ⟨rfl, hc'.trans hcommitted, hf, before ++ [role], c, by simp [hsplit], hturns.snoc hturn,
      hc, fun hcm role' hrole' hmem => ?_⟩
    obtain ⟨r, hr, hid⟩ := List.mem_map.1 hmem
    have hne : role ≠ role' := by
      rintro rfl
      have hnodup : SystemRole.all.Nodup := by decide
      rw [hsplit] at hnodup
      exact (List.nodup_cons.1 (List.nodup_append.1 hnodup).2.1).1 hrole'
    rcases hturn.mem_roles.1 hr with hr | rfl
    · exact hunused hcm role' (List.mem_cons_of_mem _ hrole') (List.mem_map.2 ⟨r, hr, hid⟩)
    · rcases hturn.roles with ⟨hr, -⟩ | ⟨rfl, -, -⟩
      · exact hunused hcm role' (List.mem_cons_of_mem _ hrole') (List.mem_map.2 ⟨r, hr, hid⟩)
      · exact hne ((hfresh hcm).1 (Ulid.ext_text hid))
  · rintro w' h' ⟨rfl, hcommitted, hcalm', before, b, hsplit, hturns, htables, -⟩
    rw [List.append_nil] at hsplit
    rw [← hsplit] at hturns
    exact hok w' b hcommitted hcalm' htables hturns

theorem bootstrap_leads (db : Db) (hw : w.committed = db.toTables) (hcalm : calm → w.faults = [])
    (hcatalog : calm → ∀ p : Permission, p.asStr ∈ db.permissions)
    (hfresh : calm → Function.Injective fresh ∧ ∀ role, (fresh role).text ∉ db.roles.map (·.id)) :
    Leads ok (bootstrap now fresh) (fun r w' _ => match r with
      | .ok () => (∀ p : Permission, p.asStr ∈ db.permissions) ∧
        ∃ b : Db, w'.committed = b.toTables ∧ Turns now fresh SystemRole.all db b
      | .error _ => w'.committed = db.toTables ∧ ¬calm) w h := by
  unfold bootstrap
  refine leads_bind (verifyPermissionCatalog_leads hcalm (hw ▸ hcatalog)
    (fun faults hfaults hall => ?_) fun e faults hno => ⟨hw, hno⟩)
  have hcalm' : calm → faults = [] := fun hc => List.subset_nil.1 (hcalm hc ▸ hfaults)
  refine leads_bind (leads_call (fun e faults' hfault => ?_) fun faults' hfaults' => ?_)
  · exact ⟨hw, fun hc => by simp [hcalm' hc] at hfault⟩
  refine leads_bind (reconcileAll_leads db hw
    (fun hc => List.subset_nil.1 (hcalm' hc ▸ hfaults')) hcatalog hfresh
    (fun w' b hcommitted hf hb hturns => ?_) fun e w' hcommitted hno => ⟨hcommitted.trans hw, hno⟩)
  refine leads_call (fun e faults'' hfault => ?_) fun faults'' _ => ?_
  · exact ⟨hcommitted.trans hw, fun hc => by simp [hf hc] at hfault⟩
  · exact ⟨hw ▸ hall, b, hb, hturns⟩

theorem bootstrap_ends (calm : Prop) (now : Int) (fresh : SystemRole → Ulid) (db : Db)
    (transaction : Tables) (faults : List (Option StoreError)) (hcalm : calm → faults = [])
    (hcatalog : calm → ∀ p : Permission, p.asStr ∈ db.permissions)
    (hfresh : calm → Function.Injective fresh ∧ ∀ role, (fresh role).text ∉ db.roles.map (·.id)) :
    let done := bootstrap now fresh ⟨db.toTables, transaction, faults⟩
    (done.result = .ok () → (∀ p : Permission, p.asStr ∈ db.permissions) ∧
        ∃ b : Db, done.world.committed = b.toTables ∧ Turns now fresh SystemRole.all db b) ∧
      ∀ e, done.result = .error e → done.world.committed = db.toTables ∧ ¬calm := by
  intro done
  have hleads : Leads (fun _ => True) (bootstrap now fresh) _ ⟨db.toTables, transaction, faults⟩ [] :=
    bootstrap_leads db rfl hcalm hcatalog hfresh
  have hend := hleads fun _ _ => trivial
  refine ⟨fun hok => ?_, fun e he => ?_⟩
  · rw [show (bootstrap now fresh _).result = .ok () from hok] at hend
    exact hend
  · rw [show (bootstrap now fresh _).result = .error e from he] at hend
    exact hend

/-- With nothing in its way the seeding does not fail. -/
theorem bootstrap_runs (db : Db) (transaction : Tables)
    (hcatalog : ∀ p : Permission, p.asStr ∈ db.permissions) (hinj : Function.Injective fresh)
    (hunused : ∀ role, (fresh role).text ∉ db.roles.map (·.id)) :
    (bootstrap now fresh ⟨db.toTables, transaction, []⟩).result = .ok () := by
  obtain ⟨-, herror⟩ := bootstrap_ends True now fresh db transaction [] (fun _ => rfl)
    (fun _ => hcatalog) fun _ => ⟨hinj, hunused⟩
  rcases hr : (bootstrap now fresh ⟨db.toTables, transaction, []⟩).result with e | ⟨⟩
  · exact absurd trivial (herror e hr).2
  · rfl

/-- Seeding that is done leaves every built-in role as the code says, with the row it had, and
everything else as it was, and doing it again changes nothing. Seeding that fails, at whatever call,
or because the catalog lacks a permission, leaves the database as it was. -/
theorem bootstrap_reconciles (db : Db) (now : Int) (fresh : SystemRole → Ulid) (transaction : Tables)
    (faults : List (Option StoreError)) :
    ((bootstrap now fresh ⟨db.toTables, transaction, faults⟩).result = .ok () →
        ∃ db' : Db,
          (bootstrap now fresh ⟨db.toTables, transaction, faults⟩).world.committed = db'.toTables ∧
          (∀ role ∈ SystemRole.all,
            Tables.Reconciled now fresh db.toTables db'.toTables role) ∧
          db.OthersKept db'.toTables ∧
          ∀ now' fresh' transaction' faults', db'.SameRows
            (bootstrap now' fresh' ⟨db'.toTables, transaction', faults'⟩).world.committed) ∧
      (∀ e, (bootstrap now fresh ⟨db.toTables, transaction, faults⟩).result = .error e →
        (bootstrap now fresh ⟨db.toTables, transaction, faults⟩).world.committed = db.toTables) ∧
      ((∃ p : Permission, p.asStr ∉ db.permissions) →
        ∃ e, (bootstrap now fresh ⟨db.toTables, transaction, faults⟩).result = .error e) := by
  have hnodup : SystemRole.all.Nodup := by decide
  obtain ⟨hdone, herror⟩ := bootstrap_ends False now fresh db transaction faults
    False.elim False.elim False.elim
  refine ⟨fun hok => ?_, fun e he => (herror e he).1, fun ⟨p, hp⟩ => ?_⟩
  · obtain ⟨-, b, hb, hturns⟩ := hdone hok
    have hreconciled := hturns.reconciled hnodup
    refine ⟨b, hb, hreconciled, hturns.others.2, fun now' fresh' transaction' faults' => ?_⟩
    obtain ⟨hdone', herror'⟩ := bootstrap_ends False now' fresh' b transaction' faults'
      False.elim False.elim False.elim
    rcases hr : (bootstrap now' fresh' ⟨b.toTables, transaction', faults'⟩).result with e | ⟨⟩
    · rw [(herror' e hr).1]
      exact ⟨.refl _, .refl _, rfl⟩
    · obtain ⟨-, c, hc, hturns'⟩ := hdone' hr
      rw [hc]
      exact sameRows_of_reconciled (fun role => hreconciled role role.mem_all)
        (fun role => hturns'.reconciled hnodup role role.mem_all) hturns'.others.1 hturns'.others.2
  · rcases hr : (bootstrap now fresh ⟨db.toTables, transaction, faults⟩).result with e | ⟨⟩
    · exact ⟨e, rfl⟩
    · exact absurd ((hdone hr).1 p) hp

theorem Permission.keys_nodup : (Permission.all.map (·.asStr)).Nodup := by
  have hnodup : Permission.all.Nodup := by decide
  exact hnodup.map fun _ _ h => Permission.asStr_inj h

/-- Somebody gave viewers a permission that the code does not, and an organization has its own role
with the key of a built-in one. -/
def tamperedDb : Db :=
  { sampleDb with
    permissions := Permission.all.map (·.asStr)
    roles := [⟨"r1", none, "viewer", "Watcher", "", true, 0⟩,
      ⟨"r2", some sampleUlid.text, "viewer", "Viewer", "", false, 0⟩]
    rolePermissions := [⟨"r1", Permission.secretRead.asStr⟩, ⟨"r2", Permission.runRead.asStr⟩]
    roleAssignments := []
    permissions_key := Permission.keys_nodup
    roles_key := by simp
    roles_name := by simp
    roles_check := by simp
    roles_org := by simp [sampleDb, Db.granting, Id.toCanonical]
    rolePermissions_key := by simp
    rolePermissions_role := by simp
    rolePermissions_permission := by decide
    roleAssignments_key := by simp
    roleAssignments_once := by simp
    roleAssignments_org := by simp
    roleAssignments_role := by simp }

def sampleDigit : SystemRole → String
  | .owner => "0"
  | .admin => "1"
  | .maintainer => "2"
  | .developer => "3"
  | .viewer => "4"
  | .billing => "5"

def sampleFresh (role : SystemRole) : Ulid :=
  .ofText ("01ARZ3NDEKTSV4RRFFQ69G5FA" ++ sampleDigit role) (by cases role <;> rfl)
    (by cases role <;> decide +kernel) (by cases role <;> decide +kernel)

theorem sampleFresh_inj : Function.Injective sampleFresh := by
  intro role role' h
  have hdigit : sampleDigit role = sampleDigit role' :=
    (String.append_right_inj _).1 (congrArg Ulid.text h)
  cases role <;> cases role' <;> first | rfl | exact absurd hdigit (by decide)

theorem sampleFresh_unused (role : SystemRole) :
    (sampleFresh role).text ∉ tamperedDb.roles.map (·.id) := by
  have hsize := (sampleFresh role).size
  intro hmem
  rcases List.mem_cons.1 hmem with h | h
  · rw [h] at hsize
    cases hsize
  · rw [List.mem_singleton.1 h] at hsize
    cases hsize

/-- The seeding puts the tampered role right. -/
theorem tampered_reconciled : ∃ db' : Db,
    (bootstrap 1 sampleFresh ⟨tamperedDb.toTables, tamperedDb.toTables, []⟩).world.committed
        = db'.toTables ∧
      (∀ role ∈ SystemRole.all,
        Tables.Reconciled 1 sampleFresh tamperedDb.toTables db'.toTables role) ∧
      tamperedDb.OthersKept db'.toTables ∧
      ∀ now' fresh' transaction' faults', db'.SameRows
        (bootstrap now' fresh' ⟨db'.toTables, transaction', faults'⟩).world.committed := by
  have hcatalog : ∀ p : Permission, p.asStr ∈ tamperedDb.permissions := fun p =>
    List.mem_map.2 ⟨p, p.mem_all, rfl⟩
  exact (bootstrap_reconciles tamperedDb 1 sampleFresh tamperedDb.toTables []).1
    (bootstrap_runs tamperedDb _ hcatalog sampleFresh_inj sampleFresh_unused)

end Running

end Jetrun
