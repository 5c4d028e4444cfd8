import QrWireguard.Misc.GoMap
import QrWireguard.Misc.Run
import QrWireguard.WebUi.Db

/-!
# The index of Telegram users

`TgUseridToClientID` maps Telegram users to the clients that are theirs. `Init` builds it, and
`SaveClient` and `DeleteClient` detach a client from every user before they attach it to one. The
loops over the map overwrite and delete entries while they visit them.
-/

namespace QrWireguard.WebUi

/-- `TgUseridToClientID`. -/
abbrev TgIndex := Dir Int (List Str)

/-- The order in which a loop visits the users of the map. -/
structure RangeOrder where
  order : TgIndex → List Int
  perm : ∀ tg, (order tg).Perm tg.keys

/-- `filterStringSlice`. -/
def filterStringSlice (s : List Str) (excludedStr : Str) : List Str :=
  filterInPlace (· != excludedStr) s

namespace TgIndex

/-- The body of the loop that detaches a client: the entry is kept when clients are left. -/
def detached (clientID : Str) (cls : List Str) : Option (List Str) :=
  let filtered := filterStringSlice cls clientID
  if 0 < filtered.length then some filtered else none

/-- `RemoveTgToClientID`. -/
def removeTgToClientID (loop : RangeOrder) (clientID : Str) (tg : TgIndex) : TgIndex :=
  tg.range (detached clientID) (loop.order tg)

/-- `UpdateTgToClientID`. -/
def updateTgToClientID (loop : RangeOrder) (userid : Int) (clientID : Str) (tg : TgIndex) :
    TgIndex :=
  let tg := tg.range (detached clientID) (loop.order tg)
  match tg.read userid with
  | some cls => tg.write userid (cls ++ [clientID])
  | none => tg.write userid [clientID]

/-- The map has a client under a user. -/
def Holds (tg : TgIndex) (userid : Int) (clientID : Str) : Prop :=
  ∃ ids, tg.read userid = some ids ∧ clientID ∈ ids

/-- No user has an empty list, and each client occurs once at most in the whole map. -/
structure WellFormed (tg : TgIndex) : Prop where
  ne_nil : ∀ userid ids, tg.read userid = some ids → ids ≠ []
  nodup : ∀ userid ids, tg.read userid = some ids → ids.Nodup
  unique : ∀ userid userid' clientID, tg.Holds userid clientID → tg.Holds userid' clientID →
    userid = userid'

section
variable {tg : TgIndex} {loop : RangeOrder} {userid : Int} {clientID : Str}

theorem detached_eq_some {cls ids : List Str} :
    detached clientID cls = some ids ↔ cls.filter (· != clientID) = ids ∧ ids ≠ [] := by
  unfold detached filterStringSlice
  rw [filterInPlace_eq]
  dsimp only
  constructor
  · intro h
    split at h
    · rename_i hpos
      obtain rfl := Option.some.inj h
      exact ⟨rfl, List.length_pos_iff.mp hpos⟩
    · cases h
  · rintro ⟨rfl, hne⟩
    rw [if_pos (List.length_pos_iff.mpr hne)]

theorem getD_detached (clientID : Str) (cls : List Str) :
    (detached clientID cls).getD [] = cls.filter (· ≠ clientID) := by
  have hfilter : cls.filter (· ≠ clientID) = cls.filter (· != clientID) := by
    apply List.filter_congr
    intro other _
    by_cases h : other = clientID
    · simp [h]
    · simp [h]
  rw [hfilter]
  cases hdetached : detached clientID cls with
  | some ids => exact (detached_eq_some.mp hdetached).1.symm
  | none =>
    by_contra hne
    rw [detached_eq_some.mpr ⟨rfl, Ne.symm hne⟩] at hdetached
    cases hdetached

/-- A user has the clients that are left after the removal of one. -/
theorem read_remove {ids : List Str} :
    (removeTgToClientID loop clientID tg).read userid = some ids ↔
      ∃ cls, tg.read userid = some cls ∧ cls.filter (· != clientID) = ids ∧ ids ≠ [] := by
  unfold removeTgToClientID
  rw [Dir.read_range _ (loop.perm tg), Option.bind_eq_some_iff]
  simp only [detached_eq_some]

theorem holds_remove {other : Str} :
    (removeTgToClientID loop clientID tg).Holds userid other ↔
      tg.Holds userid other ∧ other ≠ clientID := by
  constructor
  · rintro ⟨ids, hread, hmem⟩
    obtain ⟨cls, hcls, rfl, -⟩ := read_remove.mp hread
    obtain ⟨hmem, hne⟩ := List.mem_filter.mp hmem
    exact ⟨⟨cls, hcls, hmem⟩, bne_iff_ne.mp hne⟩
  · rintro ⟨⟨cls, hcls, hmem⟩, hne⟩
    have hkept : other ∈ cls.filter (· != clientID) :=
      List.mem_filter.mpr ⟨hmem, bne_iff_ne.mpr hne⟩
    exact ⟨_, read_remove.mpr ⟨cls, hcls, rfl, List.ne_nil_of_mem hkept⟩, hkept⟩

theorem WellFormed.remove (h : tg.WellFormed) :
    (removeTgToClientID loop clientID tg).WellFormed := by
  constructor
  · intro userid ids hread
    obtain ⟨-, -, -, hne⟩ := read_remove.mp hread
    exact hne
  · intro userid ids hread
    obtain ⟨cls, hcls, rfl, -⟩ := read_remove.mp hread
    exact (h.nodup userid cls hcls).filter _
  · intro userid userid' other hother hother'
    exact h.unique _ _ _ (holds_remove.mp hother).1 (holds_remove.mp hother').1

/-- The list of a user after a client has been attached to one. -/
theorem read_update (loop : RangeOrder) (attached : Int) (clientID : Str) (tg : TgIndex)
    (userid : Int) : (updateTgToClientID loop attached clientID tg).read userid =
      if userid = attached then
        some (((removeTgToClientID loop clientID tg).read userid).getD [] ++ [clientID])
      else (removeTgToClientID loop clientID tg).read userid := by
  unfold updateTgToClientID
  change (match (removeTgToClientID loop clientID tg).read attached with
    | some cls => (removeTgToClientID loop clientID tg).write attached (cls ++ [clientID])
    | none => (removeTgToClientID loop clientID tg).write attached [clientID]).read userid = _
  by_cases huser : userid = attached
  · subst huser
    rw [if_pos rfl]
    cases (removeTgToClientID loop clientID tg).read userid with
    | none => exact Dir.read_write_self ..
    | some cls => exact Dir.read_write_self ..
  · rw [if_neg huser]
    cases (removeTgToClientID loop clientID tg).read attached with
    | none => exact Dir.read_write_of_ne huser
    | some cls => exact Dir.read_write_of_ne huser

theorem holds_update {attached : Int} {other : Str} :
    (updateTgToClientID loop attached clientID tg).Holds userid other ↔
      userid = attached ∧ other = clientID ∨ tg.Holds userid other ∧ other ≠ clientID := by
  rw [← @holds_remove tg loop userid clientID other]
  unfold Holds
  rw [read_update]
  by_cases huser : userid = attached
  · rw [if_pos huser]
    simp only [Option.some.injEq, exists_eq_left', List.mem_append, List.mem_singleton]
    cases (removeTgToClientID loop clientID tg).read userid with
    | none => simp [huser]
    | some ids => simp [huser, or_comm]
  · rw [if_neg huser]
    simp [huser]

theorem WellFormed.update {attached : Int} (h : tg.WellFormed) :
    (updateTgToClientID loop attached clientID tg).WellFormed := by
  have hrest : (removeTgToClientID loop clientID tg).WellFormed := h.remove
  constructor
  · intro userid ids hread
    rw [read_update] at hread
    split at hread
    · obtain rfl := Option.some.inj hread
      exact List.append_ne_nil_of_right_ne_nil _ (List.cons_ne_nil _ _)
    · exact hrest.ne_nil userid ids hread
  · intro userid ids hread
    rw [read_update] at hread
    split at hread
    · obtain rfl := Option.some.inj hread
      cases hold : (removeTgToClientID loop clientID tg).read userid with
      | none => exact List.nodup_singleton clientID
      | some cls =>
        have hgone : clientID ∉ cls := by
          intro hmem
          exact (holds_remove.mp ⟨cls, hold, hmem⟩).2 rfl
        exact (hrest.nodup userid cls hold).append (List.nodup_singleton clientID)
          (List.disjoint_singleton.mpr hgone)
    · exact hrest.nodup userid ids hread
  · intro userid userid' other hother hother'
    rcases holds_update.mp hother with ⟨rfl, rfl⟩ | ⟨hheld, hne⟩
    · rcases holds_update.mp hother' with ⟨rfl, -⟩ | ⟨-, hne⟩
      · rfl
      · exact absurd rfl hne
    · rcases holds_update.mp hother' with ⟨-, rfl⟩ | ⟨hheld', -⟩
      · exact absurd rfl hne
      · exact h.unique _ _ _ hheld hheld'

theorem not_holds_empty : ¬ Holds Dir.empty userid clientID := by
  rintro ⟨ids, hread, -⟩
  cases hread

theorem WellFormed.empty : WellFormed Dir.empty := by
  constructor
  · intro userid ids hread
    cases hread
  · intro userid ids hread
    cases hread
  · intro userid userid' other hother
    exact absurd hother not_holds_empty

end

/-- The map as the store of the handlers sees it: a user without an entry has no clients. -/
def lists (tg : TgIndex) : Int → List Str := fun userid => (tg.read userid).getD []

theorem lists_remove (loop : RangeOrder) (clientID : Str) (tg : TgIndex) :
    (removeTgToClientID loop clientID tg).lists =
      WebUi.removeTgToClientID tg.lists clientID := by
  funext userid
  change ((removeTgToClientID loop clientID tg).read userid).getD [] =
    ((tg.read userid).getD []).filter (· ≠ clientID)
  unfold removeTgToClientID
  rw [Dir.read_range _ (loop.perm tg)]
  cases tg.read userid with
  | none => rfl
  | some cls => exact getD_detached clientID cls

theorem lists_update (loop : RangeOrder) (attached : Int) (clientID : Str) (tg : TgIndex) :
    (updateTgToClientID loop attached clientID tg).lists =
      WebUi.updateTgToClientID tg.lists attached clientID := by
  funext userid
  unfold WebUi.updateTgToClientID
  rw [← lists_remove loop, Function.update_apply, lists, read_update]
  split
  · rename_i huser
    rw [huser]
    rfl
  · rfl

end TgIndex

/-- The directory of the clients and the map. -/
structure TgStore where
  clients : Dir Str Client
  tgUseridToClientID : TgIndex

/-- What `Init` does with one client. -/
def initClient (loops : Str → RangeOrder) (tg : TgIndex) (client : Client) : TgIndex :=
  if client.enabled && client.tgUserid != [] then
    match parseInt client.tgUserid with
    | some userid => tg.updateTgToClientID (loops client.id) userid client.id
    | none => tg
  else tg

namespace TgStore

/-- The end of `Init`: the map starts empty. Each client's loop has an order of its own. -/
def init (loops : Str → RangeOrder) (clients : Dir Str Client) : TgStore :=
  ⟨clients, clients.readAll.foldl (initClient loops) Dir.empty⟩

/-- `SaveClient`. -/
def saveClient (loop : RangeOrder) (faults : StoreFaults) (client : Client) (s : TgStore) :
    TgStore :=
  if faults.writeOk then
    { clients := s.clients.write client.id client
      tgUseridToClientID :=
        if client.enabled && client.tgUserid != [] then
          match parseInt client.tgUserid with
          | some userid => s.tgUseridToClientID.updateTgToClientID loop userid client.id
          | none => s.tgUseridToClientID
        else s.tgUseridToClientID.removeTgToClientID loop client.id }
  else { s with tgUseridToClientID := s.tgUseridToClientID.removeTgToClientID loop client.id }

/-- `DeleteClient`. -/
def deleteClient (loop : RangeOrder) (faults : StoreFaults) (clientID : Str) (s : TgStore) :
    TgStore :=
  let s := { s with tgUseridToClientID := s.tgUseridToClientID.removeTgToClientID loop clientID }
  if faults.deleteOk && (s.clients.read clientID).isSome then
    { s with clients := s.clients.delete clientID }
  else s

/-- The store stands for a store of the handlers. -/
def Represents (s : TgStore) (db : Db) : Prop :=
  db.clients = s.clients ∧ db.tgUseridToClientID = s.tgUseridToClientID.lists

theorem Represents.saveClient {s : TgStore} {db : Db} (h : s.Represents db) (loop : RangeOrder)
    (faults : StoreFaults) (client : Client) :
    (s.saveClient loop faults client).Represents (db.saveClient faults client).2 := by
  obtain ⟨hclients, htg⟩ := h
  unfold TgStore.saveClient Db.saveClient Db.tgAfterSave
  rw [hclients, htg]
  split
  · refine ⟨rfl, ?_⟩
    dsimp only
    split
    · cases parseInt client.tgUserid with
      | none => rfl
      | some userid => exact (TgIndex.lists_update ..).symm
    · exact (TgIndex.lists_remove ..).symm
  · exact ⟨rfl, (TgIndex.lists_remove ..).symm⟩

theorem Represents.deleteClient {s : TgStore} {db : Db} (h : s.Represents db) (loop : RangeOrder)
    (faults : StoreFaults) (clientID : Str) :
    (s.deleteClient loop faults clientID).Represents (db.deleteClient faults clientID).2 := by
  obtain ⟨hclients, htg⟩ := h
  unfold TgStore.deleteClient Db.deleteClient
  dsimp only
  rw [hclients, htg]
  split
  · exact ⟨rfl, (TgIndex.lists_remove ..).symm⟩
  · exact ⟨rfl, (TgIndex.lists_remove ..).symm⟩

/-- The map has each enabled client once, under the user its field stands for, and no others. -/
structure Mirrors (s : TgStore) : Prop where
  holds_iff : ∀ userid clientID, s.tgUseridToClientID.Holds userid clientID ↔
    ∃ client, s.clients.read clientID = some client ∧ client.enabled = true ∧
      parseInt client.tgUserid = some userid
  wellFormed : s.tgUseridToClientID.WellFormed

end TgStore

/-- What the handlers check of the Telegram user of a client. -/
def ValidTg (client : Client) : Prop :=
  client.tgUserid = [] ∨ (parseInt client.tgUserid).isSome

/-- A call, with the order of its loop and the ends of its disk operations. -/
inductive TgCall where
  | saveClient (loop : RangeOrder) (faults : StoreFaults) (client : Client)
  | deleteClient (loop : RangeOrder) (faults : StoreFaults) (clientID : Str)

namespace TgCall

/-- The store after a call. -/
def run : TgCall → TgStore → TgStore
  | saveClient loop faults client, s => s.saveClient loop faults client
  | deleteClient loop faults clientID, s => s.deleteClient loop faults clientID

/-- The disk operation succeeds, and a client is saved with a checked Telegram user. -/
def Ok : TgCall → Prop
  | saveClient _ faults client => faults.writeOk = true ∧ ValidTg client
  | deleteClient _ faults _ => faults.deleteOk = true

end TgCall

namespace TgStore
variable {s : TgStore}

/-- `Init` has read a directory in which every record bears the name of its client. -/
def Start (s : TgStore) : Prop :=
  ∃ loops clients, (∀ name client, clients.read name = some client → client.id = name) ∧
    s = init loops clients

theorem parseInt_nil : parseInt [] = none := rfl

/-- The test in front of the number only leaves out texts that are none. -/
theorem attached_iff {client : Client} {userid : Int} :
    (client.enabled && client.tgUserid != []) = true ∧ parseInt client.tgUserid = some userid ↔
      client.enabled = true ∧ parseInt client.tgUserid = some userid := by
  rw [Bool.and_eq_true, bne_iff_ne, and_assoc]
  constructor
  · rintro ⟨henabled, -, hparse⟩
    exact ⟨henabled, hparse⟩
  · rintro ⟨henabled, hparse⟩
    refine ⟨henabled, ?_, hparse⟩
    intro hnil
    rw [hnil, parseInt_nil] at hparse
    cases hparse

/-- What the start does to the map with one client that is not in it. -/
theorem holds_initClient {loops : Str → RangeOrder} {tg : TgIndex} {client : Client}
    (hfresh : ∀ userid, ¬ tg.Holds userid client.id) {userid : Int} {clientID : Str} :
    (initClient loops tg client).Holds userid clientID ↔
      tg.Holds userid clientID ∨ clientID = client.id ∧ client.enabled = true ∧
        parseInt client.tgUserid = some userid := by
  rw [← attached_iff]
  unfold initClient
  split
  · rename_i hattached
    simp only [hattached, true_and]
    cases parseInt client.tgUserid with
    | none => simp
    | some attached =>
      dsimp only
      rw [TgIndex.holds_update, Option.some.injEq]
      constructor
      · rintro (⟨rfl, rfl⟩ | ⟨hheld, -⟩)
        · exact .inr ⟨rfl, rfl⟩
        · exact .inl hheld
      · rintro (hheld | ⟨rfl, rfl⟩)
        · refine .inr ⟨hheld, ?_⟩
          rintro rfl
          exact hfresh userid hheld
        · exact .inl ⟨rfl, rfl⟩
  · rename_i hattached
    simp [hattached]

theorem wellFormed_initClient {loops : Str → RangeOrder} {tg : TgIndex} {client : Client}
    (h : tg.WellFormed) : (initClient loops tg client).WellFormed := by
  unfold initClient
  split
  · cases parseInt client.tgUserid with
    | none => exact h
    | some userid => exact h.update
  · exact h

/-- The loop of the start, by induction on the clients that are left. -/
theorem holds_foldl_initClient {loops : Str → RangeOrder} {l : List Client} {tg : TgIndex}
    (hnodup : (l.map (·.id)).Nodup) (hfresh : ∀ client ∈ l, ∀ userid, ¬ tg.Holds userid client.id)
    {userid : Int} {clientID : Str} :
    (l.foldl (initClient loops) tg).Holds userid clientID ↔
      tg.Holds userid clientID ∨ ∃ client ∈ l, clientID = client.id ∧ client.enabled = true ∧
        parseInt client.tgUserid = some userid := by
  induction l generalizing tg with
  | nil => simp
  | cons first rest ih =>
    have hfirst := hfresh first List.mem_cons_self
    rw [List.map_cons, List.nodup_cons] at hnodup
    have hrest : ∀ client ∈ rest, ∀ userid,
        ¬ (initClient loops tg first).Holds userid client.id := by
      intro client hmem userid hheld
      rcases (holds_initClient hfirst).mp hheld with hheld | ⟨hid, -⟩
      · exact hfresh client (List.mem_cons_of_mem _ hmem) userid hheld
      · exact hnodup.1 (hid ▸ List.mem_map_of_mem hmem)
    rw [List.foldl_cons, ih hnodup.2 hrest, holds_initClient hfirst, or_assoc,
      List.exists_mem_cons_iff]

theorem wellFormed_foldl_initClient {loops : Str → RangeOrder} {l : List Client} {tg : TgIndex}
    (h : tg.WellFormed) : (l.foldl (initClient loops) tg).WellFormed := by
  induction l generalizing tg with
  | nil => exact h
  | cons first rest ih => exact ih (wellFormed_initClient h)

theorem Start.mirrors (h : Start s) : s.Mirrors := by
  obtain ⟨loops, clients, hnamed, rfl⟩ := h
  have hids : (clients.readAll.map (·.id)) = clients.keys := by
    unfold Dir.readAll Dir.keys
    rw [List.map_map]
    apply List.map_congr_left
    rintro ⟨name, client⟩ hmem
    exact hnamed name client ((Dir.lookup_eq_some_iff clients.sorted).mpr hmem)
  have hnodup : (clients.readAll.map (·.id)).Nodup := by
    rw [hids]
    exact clients.keys_nodup
  constructor
  · intro userid clientID
    unfold init
    dsimp only
    rw [holds_foldl_initClient hnodup fun _ _ _ => TgIndex.not_holds_empty]
    constructor
    · rintro (hheld | ⟨client, hmem, rfl, hclient⟩)
      · exact absurd hheld TgIndex.not_holds_empty
      · obtain ⟨name, hread⟩ := Dir.mem_readAll.mp hmem
        rw [hnamed name client hread]
        exact ⟨client, hread, hclient⟩
    · rintro ⟨client, hread, hclient⟩
      exact .inr ⟨client, Dir.mem_readAll.mpr ⟨_, hread⟩, (hnamed _ _ hread).symm, hclient⟩
  · exact wellFormed_foldl_initClient TgIndex.WellFormed.empty

/-- A client that is saved loses its old users and gets the one its field stands for. -/
theorem holds_saveClient {loop : RangeOrder} {faults : StoreFaults} {client : Client}
    (hwrite : faults.writeOk = true) (hvalid : ValidTg client) {userid : Int} {clientID : Str} :
    (s.saveClient loop faults client).tgUseridToClientID.Holds userid clientID ↔
      (clientID = client.id ∧ client.enabled = true ∧ parseInt client.tgUserid = some userid) ∨
        s.tgUseridToClientID.Holds userid clientID ∧ clientID ≠ client.id := by
  rw [← attached_iff]
  unfold saveClient
  rw [if_pos hwrite]
  dsimp only
  split
  · rename_i hattached
    have hne : client.tgUserid ≠ [] := bne_iff_ne.mp (Bool.and_eq_true_iff.mp hattached).2
    obtain ⟨attached, hparse⟩ := Option.isSome_iff_exists.mp (hvalid.resolve_left hne)
    simp only [hattached, hparse, true_and, Option.some.injEq]
    rw [TgIndex.holds_update, and_comm (a := clientID = client.id), eq_comm (a := attached)]
  · rename_i hattached
    rw [TgIndex.holds_remove]
    simp [hattached]

theorem wellFormed_saveClient {loop : RangeOrder} {faults : StoreFaults} {client : Client}
    (h : s.tgUseridToClientID.WellFormed) :
    (s.saveClient loop faults client).tgUseridToClientID.WellFormed := by
  unfold saveClient
  split
  · dsimp only
    split
    · cases parseInt client.tgUserid with
      | none => exact h
      | some userid => exact h.update
    · exact h.remove
  · exact h.remove

theorem Mirrors.saveClient {loop : RangeOrder} {faults : StoreFaults} {client : Client}
    (h : s.Mirrors) (hwrite : faults.writeOk = true) (hvalid : ValidTg client) :
    (s.saveClient loop faults client).Mirrors := by
  have hclients : (s.saveClient loop faults client).clients = s.clients.write client.id client := by
    unfold TgStore.saveClient
    rw [if_pos hwrite]
  refine ⟨?_, wellFormed_saveClient h.wellFormed⟩
  intro userid clientID
  rw [holds_saveClient hwrite hvalid, hclients, h.holds_iff, Dir.read_write]
  by_cases hid : clientID = client.id
  · simp [hid]
  · simp [hid]

theorem Mirrors.deleteClient {loop : RangeOrder} {faults : StoreFaults} {clientID : Str}
    (h : s.Mirrors) (hdelete : faults.deleteOk = true) :
    (s.deleteClient loop faults clientID).Mirrors := by
  have htg : (s.deleteClient loop faults clientID).tgUseridToClientID =
      s.tgUseridToClientID.removeTgToClientID loop clientID := by
    unfold TgStore.deleteClient
    dsimp only
    split
    · rfl
    · rfl
  have hclients : ∀ name, (s.deleteClient loop faults clientID).clients.read name =
      if name = clientID then none else s.clients.read name := by
    intro name
    unfold TgStore.deleteClient
    dsimp only
    rw [hdelete, Bool.true_and]
    split
    · exact Dir.read_delete ..
    · rename_i hmissing
      split
      · rename_i hname
        rw [hname]
        exact Option.not_isSome_iff_eq_none.mp hmissing
      · rfl
  constructor
  · intro userid other
    rw [htg, TgIndex.holds_remove, h.holds_iff, hclients]
    by_cases hid : other = clientID
    · simp [hid]
    · simp [hid]
  · rw [htg]
    exact h.wellFormed.remove

/-- After the start and any calls the map mirrors the clients. -/
theorem tgUseridToClientID_mirrors
    (h : Reach Start (fun s call t => t = TgCall.run call s) (fun _ call => call.Ok) s) :
    s.Mirrors := by
  apply Reach.invariant _ _ h
  · intro s hstart
    exact hstart.mirrors
  · rintro s call _ hmirrors hok rfl
    cases call with
    | saveClient loop faults client => exact hmirrors.saveClient hok.1 hok.2
    | deleteClient loop faults clientID => exact hmirrors.deleteClient hok

/-- The users in the order of their numbers. -/
def inOrder : RangeOrder := ⟨Dir.keys, fun _ => .refl _⟩

/-- An enabled client of a Telegram user. -/
def tgClient (id tgUserid : Str) : Client :=
  { Client.zero with id := id, tgUserid := tgUserid, enabled := true }

theorem tgUseridToClientID_mirrors_saved :
    (((init (fun _ => inOrder) Dir.empty).saveClient inOrder .none
      (tgClient (str "a") (str "42"))).saveClient inOrder .none
        (tgClient (str "a") (str "-7"))).Mirrors := by
  have hstart : Start (init (fun _ => inOrder) Dir.empty) :=
    ⟨_, _, fun name client hread => absurd hread (by simp), rfl⟩
  apply tgUseridToClientID_mirrors
  refine .step (i := .saveClient inOrder .none (tgClient (str "a") (str "-7")))
    (.step (i := .saveClient inOrder .none (tgClient (str "a") (str "42"))) (.init hstart) ?_ rfl)
    ?_ rfl
  · exact ⟨rfl, .inr (by decide)⟩
  · exact ⟨rfl, .inr (by decide)⟩

end TgStore

end QrWireguard.WebUi
