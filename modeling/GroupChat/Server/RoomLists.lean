import GroupChat.Server.Conversations
import GroupChat.Server.Muted
import GroupChat.Server.RoomNames

/-!
# The list of rooms

`RoomManager.list_rooms` is what the clients are shown: the rooms in the order of their names, with
the number of members of each.  The members are kept apart from the records of the clients, so that
the numbers are right is a fact about all handlers together.

* `listRooms_exact`: in every state that can be reached, each room is listed once and at its place,
  the number of members is that of the clients whose record has the room, and so the numbers add up
  to that of all clients.
* `rooms_stay`: a room that has been listed is listed ever after, also when everybody has left it.
-/

set_option autoImplicit false

namespace GroupChat

open Transition

/-! ## The order of the names

`sorted` compares strings by their code points, which is a total order. -/

theorem strLe_trans {s t u : Str} (h : Node.strLe s t = true) (h' : Node.strLe t u = true) :
    Node.strLe s u = true := by
  induction s generalizing t u with
  | nil => rfl
  | cons a s ih =>
    cases t with
    | nil => simp [Node.strLe] at h
    | cons b t =>
      cases u with
      | nil => simp [Node.strLe] at h'
      | cons c u =>
        simp only [Node.strLe, Bool.or_eq_true, decide_eq_true_eq, Bool.and_eq_true,
          beq_iff_eq] at h h' ⊢
        rcases h with h | ⟨rfl, h⟩
        · rcases h' with h' | ⟨rfl, -⟩
          · exact Or.inl (h.trans h')
          · exact Or.inl h
        · rcases h' with h' | ⟨rfl, h'⟩
          · exact Or.inl h'
          · exact Or.inr ⟨rfl, ih h h'⟩

/-! ## Counting

Every client is in one room, so the sum over the rooms of those that are in it is the number of
all. -/

theorem sum_map_boole {α : Type*} (p : α → Bool) (l : List α) :
    (l.map fun a ↦ if p a then 1 else 0).sum = l.countP p := by
  induction l with
  | nil => rfl
  | cons a l ih => rw [List.map_cons, List.sum_cons, ih, List.countP_cons, Nat.add_comm]

/-- Things that are counted by their kinds are all counted, if the kinds are listed once each. -/
theorem sum_countP_eq_length {α β : Type*} [DecidableEq β] (f : α → β) {kinds : List β}
    (hnodup : kinds.Nodup) (l : List α) (h : ∀ a ∈ l, f a ∈ kinds) :
    (kinds.map fun k ↦ l.countP fun a ↦ decide (f a = k)).sum = l.length := by
  induction l with
  | nil => simp
  | cons a l ih =>
    have hone : (kinds.map fun k ↦ if decide (f a = k) then 1 else 0).sum = 1 := by
      have hcount : kinds.countP (fun k ↦ decide (f a = k)) = kinds.count (f a) := by
        rw [List.count]
        exact List.countP_congr fun k _ ↦ by rw [decide_eq_true_iff, beq_iff_eq, eq_comm]
      rw [sum_map_boole, hcount, List.count_eq_one_of_mem hnodup (h a List.mem_cons_self)]
    simp only [List.countP_cons, List.length_cons]
    rw [List.sum_map_add, ih fun b hb ↦ h b (List.mem_cons_of_mem a hb), hone]

namespace Node

variable {env : Env} {n n' : Node}

/-! ## Members and records

The number that is shown is the length of the member map of a room.  By the invariant of
`Server.Rooms` it has one entry for each client whose record has the room. -/

/-- The members of a room are the clients that have it in their records. -/
theorem length_members (hn : Housed n) {room : Str} {members : Dict Str Member}
    (h : n.rooms.get? room = some members) :
    members.keys.length = n.clientsById.values.countP fun c ↦ decide (c.room = room) := by
  have hmem : ∀ id, id ∈ members.keys ↔ id ∈ (n.clientsById.entries.filter fun p ↦
      decide (p.2.room = room)).map Prod.fst := by
    intro id
    have hmember : n.member? room id = members.get? id := by rw [member?, h]; rfl
    rw [Dict.mem_keys_iff, List.mem_map]
    constructor
    · rintro ⟨m, hm⟩
      obtain ⟨p, hp, hroom, -⟩ := hn.client room id m (hmember.trans hm)
      obtain ⟨c, hc, rfl⟩ := Option.map_eq_some_iff.mp hp
      exact ⟨(id, c), List.mem_filter.mpr ⟨(Dict.mem_entries_iff _).mpr hc,
        decide_eq_true hroom⟩, rfl⟩
    · rintro ⟨⟨id', c⟩, hc, rfl⟩
      obtain ⟨hentry, hroom⟩ := List.mem_filter.mp hc
      have hget := (Dict.mem_entries_iff _).mp hentry
      obtain ⟨m, hm⟩ := hn.member id' _ (placeOf_of_get? hget)
      have hroom' : c.place.room = room := of_decide_eq_true hroom
      exact ⟨m, by rw [← hmember, ← hroom']; exact hm⟩
  have hperm : members.keys.Perm _ := (List.perm_ext_iff_of_nodup members.nodup
    (n.clientsById.nodup.sublist (List.filter_sublist.map Prod.fst))).mpr hmem
  rw [hperm.length_eq, List.length_map, Dict.values, List.countP_map, List.countP_eq_length_filter]
  rfl

/-! ## The list

The entries are read off the rooms, each of which has one.  No step takes a room away. -/

theorem listRooms_perm (n : Node) :
    n.listRooms.Perm (n.rooms.entries.map fun p ↦ ⟨p.1, p.2.keys.length⟩) :=
  List.mergeSort_perm _ _

theorem names_listRooms (n : Node) : (n.listRooms.map RoomInfo.name).Perm n.rooms.keys := by
  have hperm := (listRooms_perm n).map RoomInfo.name
  rwa [List.map_map] at hperm

theorem sorted_listRooms (n : Node) :
    n.listRooms.Pairwise fun r r' ↦ strLe r.name r'.name = true := by
  have htotal : ∀ r r' : RoomInfo, (strLe r.name r'.name || strLe r'.name r.name) = true := by
    intro r r'
    cases h : strLe r.name r'.name with
    | true => rfl
    | false => exact strLe_total _ _ h
  exact List.pairwise_mergeSort (fun (r r' r'' : RoomInfo) (h : strLe r.name r'.name = true) h' ↦
    strLe_trans h h') htotal _

theorem rooms_stay_step {a : Event} (h : n.step env a = some n') {room : Str}
    (hroom : room ∈ n.rooms.keys) : room ∈ n'.rooms.keys := by
  rcases gainsRooms_step h with ⟨v, -, hgains⟩ | ⟨-, new, hgains, -⟩
  · exact (hgains room).mpr (Or.inl hroom)
  · exact (hgains room).mpr (Or.inl hroom)

/-- A room that is listed is listed ever after. -/
theorem rooms_stay (h : (system env).Run n n') {room : Str}
    (hroom : room ∈ n.listRooms.map RoomInfo.name) : room ∈ n'.listRooms.map RoomInfo.name := by
  rw [(names_listRooms _).mem_iff] at hroom ⊢
  exact h.preserves (I := fun n ↦ room ∈ n.rooms.keys) hroom fun _ _ _ hn hstep ↦
    rooms_stay_step hstep hn

theorem defaults_initial (env : Env) {room : Str}
    (hroom : room ∈ env.config.defaultRoom :: env.config.otherRooms) :
    room ∈ (initial env).rooms.keys := by
  have hall : ∀ (rooms : List Str) (n : Node), room ∈ n.rooms.keys ∨ room ∈ rooms →
      room ∈ (rooms.foldl ensureRoom n).rooms.keys := by
    intro rooms
    induction rooms with
    | nil => exact fun n h ↦ h.resolve_right List.not_mem_nil
    | cons r rooms ih =>
      intro n h
      refine ih (n.ensureRoom r) ?_
      rw [GainsRooms.ensureRoom n r room, or_assoc]
      simpa using h
  exact hall _ _ (Or.inr hroom)

/-- **The list of rooms is right.**  The rooms are in the order of their names and no two of them
have the same name, the default rooms are among them, each has as many members as there are clients
with this room, and together they have as many as there are clients. -/
theorem listRooms_exact (h : (system env).Reachable n) :
    n.listRooms.Pairwise (fun r r' ↦ strLe r.name r'.name = true) ∧
    (n.listRooms.map RoomInfo.name).Nodup ∧
    (∀ room ∈ env.config.defaultRoom :: env.config.otherRooms,
      room ∈ n.listRooms.map RoomInfo.name) ∧
    (∀ r ∈ n.listRooms, r.memberCount =
      n.clientsById.values.countP fun c ↦ decide (c.room = r.name)) ∧
    (n.listRooms.map RoomInfo.memberCount).sum = n.clientsById.keys.length := by
  have hn := housed_of_reachable h
  have hnodup : (n.listRooms.map RoomInfo.name).Nodup :=
    (names_listRooms n).nodup_iff.mpr n.rooms.nodup
  have hcount : ∀ r ∈ n.listRooms, r.memberCount =
      n.clientsById.values.countP fun c ↦ decide (c.room = r.name) := by
    intro r hr
    obtain ⟨⟨room, members⟩, hentry, rfl⟩ := List.mem_map.mp ((listRooms_perm n).mem_iff.mp hr)
    exact length_members hn ((Dict.mem_entries_iff _).mp hentry)
  have hlisted : ∀ c ∈ n.clientsById.values, c.room ∈ n.listRooms.map RoomInfo.name := by
    intro c hc
    obtain ⟨⟨id, c⟩, hentry, rfl⟩ := List.mem_map.mp hc
    have hplace := placeOf_of_get? ((Dict.mem_entries_iff _).mp hentry)
    obtain ⟨m, hm⟩ := hn.member id _ hplace
    obtain ⟨members, hmembers, -⟩ := Option.bind_eq_some_iff.mp hm
    exact (names_listRooms n).mem_iff.mpr (Dict.mem_keys_of_get? hmembers)
  refine ⟨sorted_listRooms n, hnodup, fun room hroom ↦ ?_, hcount, ?_⟩
  · obtain ⟨n₀, rfl, hrun⟩ := h
    exact rooms_stay hrun ((names_listRooms _).mem_iff.mpr (defaults_initial env hroom))
  · have hsum := sum_countP_eq_length Client.room hnodup n.clientsById.values hlisted
    rw [List.map_map] at hsum
    rw [List.map_congr_left hcount]
    exact hsum.trans (by rw [Dict.values, Dict.keys, List.length_map, List.length_map])

/-- Two clients are counted. -/
theorem listRooms_muteRun : ∃ n, (system plainEnv).Reachable n ∧
    (n.listRooms.map RoomInfo.memberCount).sum = 2 ∧
      n.listRooms.Pairwise (fun r r' ↦ strLe r.name r'.name = true) := by
  have hexec : (System.exec (step plainEnv) (initial plainEnv) muteRun).map
      (fun n ↦ n.clientsById.keys.length) = some 2 := by
    decide +kernel
  obtain ⟨n, hn, htwo⟩ := Option.map_eq_some_iff.mp hexec
  have hreach : (system plainEnv).Reachable n := System.reachable_of_exec rfl hn
  obtain ⟨hsorted, -, -, -, hsum⟩ := listRooms_exact hreach
  exact ⟨n, hreach, hsum.trans htwo, hsorted⟩

end Node
end GroupChat
