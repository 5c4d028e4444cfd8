import QrWireguard.WebUi.Messages

/-!
# Updates of the interface

`WireGuardServerInterfaces` saves the interface before it takes the first address for the agent.
The check of the addresses accepts a list without any, and the permissions are set after the
write.
-/

namespace QrWireguard.WebUi

open BePlugin

/-- The interface that a body is saved as. -/
def savedInterface (env : Env) (body : ServerInterface) : ServerInterface :=
  { body with updatedAt := env.now }

/-- What an update of the interface should guarantee: it does not panic, it leaves the interface as
it is when it does not succeed, and when it does the interface has addresses, all of them in CIDR
format, one of which goes to the agent. -/
structure InterfaceSafe (db : Db) (r : Reply × Db) : Prop where
  completes : r.1.answer ≠ .panic
  unchanged : r.1.answer.success = false → r.2.interfaces = db.interfaces
  stored : r.1.answer.success = true → ∃ interface, r.2.interfaces = some interface ∧
    interface.addresses ≠ [] ∧ (∀ cidr ∈ interface.addresses, validateCIDR cidr = true) ∧
    ∃ address ∈ interface.addresses, r.1.message = some (setWireguardInterface address interface)

/-- The condition on a request whose addresses pass the check and whose record is written: the
list has an address and the permissions are set, or the permissions are not set and the record is
the stored one. -/
def InterfaceWritten (env : Env) (body : ServerInterface) (db : Db) : Prop :=
  (env.faults.permsOk = true ∧ body.addresses ≠ []) ∨
    (env.faults.permsOk = false ∧ db.interfaces = some (savedInterface env body))

section
variable {env : Env} {body : ServerInterface} {db : Db}

theorem run_interfaces_invalid (h : validateServerAddresses body.addresses = false) :
    (wireGuardServerInterfaces env body).run db =
      ((Answer.json 400 false (str "Interface IP address must be in CIDR format")).only, db) := by
  unfold wireGuardServerInterfaces
  rw [h]
  rfl

theorem run_interfaces_failed (h : validateServerAddresses body.addresses = true)
    (hsave : (db.saveServerInterface env.faults (savedInterface env body)).1 = false) :
    (wireGuardServerInterfaces env body).run db =
      ((Answer.json 500 false (str "Interface IP address must be in CIDR format")).only,
        (db.saveServerInterface env.faults (savedInterface env body)).2) := by
  unfold wireGuardServerInterfaces
  rw [h, Bool.not_true, if_neg Bool.false_ne_true, Prog.run_bind, Prog.run_modifyGet]
  change (Prog.run (if (db.saveServerInterface env.faults (savedInterface env body)).1 then _
    else _) _) = _
  rw [hsave]
  rfl

theorem run_interfaces_saved (h : validateServerAddresses body.addresses = true)
    (hsave : (db.saveServerInterface env.faults (savedInterface env body)).1 = true) :
    (wireGuardServerInterfaces env body).run db =
      (match body.addresses with
        | [] => Answer.panic.only
        | address :: _ => ⟨.json 200 true (str "Updated interface addresses successfully"),
          some (setWireguardInterface address (savedInterface env body))⟩,
        (db.saveServerInterface env.faults (savedInterface env body)).2) := by
  unfold wireGuardServerInterfaces
  rw [h, Bool.not_true, if_neg Bool.false_ne_true, Prog.run_bind, Prog.run_modifyGet]
  change (Prog.run (if (db.saveServerInterface env.faults (savedInterface env body)).1 then _
    else _) _) = _
  rw [hsave]
  cases body with
  | mk addresses listenPort updatedAt postUp preDown postDown =>
    cases addresses with
    | nil => rfl
    | cons address rest => rfl

/-- The store after an update of the interface. -/
theorem run_interfaces_snd : ((wireGuardServerInterfaces env body).run db).2 =
    if validateServerAddresses body.addresses = true ∧ env.faults.writeOk = true then
      { db with interfaces := some (savedInterface env body) }
    else db := by
  cases hvalid : validateServerAddresses body.addresses with
  | false =>
    rw [run_interfaces_invalid hvalid, if_neg fun h => Bool.false_ne_true h.1]
  | true =>
    have hsaves : ((wireGuardServerInterfaces env body).run db).2 =
        (db.saveServerInterface env.faults (savedInterface env body)).2 := by
      cases hsave : (db.saveServerInterface env.faults (savedInterface env body)).1 with
      | false => rw [run_interfaces_failed hvalid hsave]
      | true => rw [run_interfaces_saved hvalid hsave]
    rw [hsaves, Db.saveServerInterface]
    cases env.faults.writeOk <;> rfl

/-- A request that is refused or whose record is not written is safe. -/
theorem interfaceSafe_unchanged {answer : Answer} (hpanic : answer ≠ .panic)
    (hsuccess : answer.success = false) {db' : Db} (h : db'.interfaces = db.interfaces) :
    InterfaceSafe db (answer.only, db') where
  completes := hpanic
  unchanged _ := h
  stored hstored := by
    rw [show (answer.only, db').1.answer = answer from rfl, hsuccess] at hstored
    cases hstored

/-- A request whose record is written is safe when the agent gets one of its addresses. -/
theorem interfaceSafe_stored {interface : ServerInterface} {address text : Str} {db' : Db}
    (hmem : address ∈ interface.addresses)
    (hvalid : ∀ cidr ∈ interface.addresses, validateCIDR cidr = true)
    (h : db'.interfaces = some interface) :
    InterfaceSafe db
      (⟨.json 200 true text, some (setWireguardInterface address interface)⟩, db') where
  completes hpanic := by cases (hpanic : Answer.json 200 true text = .panic)
  unchanged hrefused := by cases (hrefused : true = false)
  stored _ := ⟨interface, h, List.ne_nil_of_mem hmem, hvalid, address, hmem, rfl⟩

/-- An update of the interface is safe just when its addresses are refused, its record is not
written, or the record is written as it should be. -/
theorem wireGuardServerInterfaces_safe (env : Env) (body : ServerInterface) (db : Db) :
    InterfaceSafe db ((wireGuardServerInterfaces env body).run db) ↔
      (validateServerAddresses body.addresses = true → env.faults.writeOk = true →
        InterfaceWritten env body db) := by
  cases hvalid : validateServerAddresses body.addresses with
  | false =>
    rw [run_interfaces_invalid hvalid]
    apply iff_of_true
    · exact interfaceSafe_unchanged (fun h => by cases h) rfl rfl
    · intro h
      cases h
  | true =>
    cases hwrite : env.faults.writeOk with
    | false =>
      have hsame : db.saveServerInterface env.faults (savedInterface env body) = (false, db) := by
        rw [Db.saveServerInterface, hwrite]
        rfl
      rw [run_interfaces_failed hvalid (by rw [hsame]), hsame]
      apply iff_of_true
      · exact interfaceSafe_unchanged (fun h => by cases h) rfl rfl
      · intro _ h
        cases h
    | true =>
      have hsave : db.saveServerInterface env.faults (savedInterface env body) =
          (env.faults.permsOk, { db with interfaces := some (savedInterface env body) }) := by
        rw [Db.saveServerInterface, hwrite]
        rfl
      simp only [forall_const]
      unfold InterfaceWritten
      cases hperms : env.faults.permsOk with
      | false =>
        rw [hperms] at hsave
        rw [run_interfaces_failed hvalid (by rw [hsave]), hsave]
        constructor
        · intro h
          exact .inr ⟨rfl, (h.unchanged rfl).symm⟩
        · rintro (⟨h, -⟩ | ⟨-, h⟩)
          · cases h
          · exact interfaceSafe_unchanged (fun h => by cases h) rfl h.symm
      | true =>
        rw [hperms] at hsave
        rw [run_interfaces_saved hvalid (by rw [hsave]), hsave]
        cases haddresses : body.addresses with
        | nil =>
          apply iff_of_false
          · intro h
            exact h.completes rfl
          · rintro (⟨-, h⟩ | ⟨h, -⟩)
            · exact h rfl
            · cases h
        | cons address rest =>
          have hall := List.all_eq_true.mp hvalid
          have hmem : address ∈ (savedInterface env body).addresses := by
            rw [savedInterface, haddresses]
            exact List.mem_cons_self
          apply iff_of_true
          · exact interfaceSafe_stored hmem hall rfl
          · exact .inl ⟨rfl, List.cons_ne_nil _ _⟩

end

/-- A body without addresses makes the handler panic after it has saved the interface. -/
theorem wireGuardServerInterfaces_not_safe :
    ¬ InterfaceSafe freshDb ((wireGuardServerInterfaces usualEnv
      { addresses := [], listenPort := 0, updatedAt := Time.zero, postUp := [], preDown := [],
        postDown := [] }).run freshDb) := by
  intro h
  exact h.completes rfl

end QrWireguard.WebUi
