import GroupChat.Py.Utf8
import GroupChat.Server.Signatures

/-!
# Is a signed payload unambiguous?

`make_signable_payload` writes the id, the room, the sender and the time of a message one after the
other, with a `|` behind each of them, and appends the nonce, another `|` and the ciphertext.  The
strings are not escaped, and clients choose them, so a `|` within one of them looks like one that
ends it.

* `Signable`: what is signed.  Its `header` is the text up to the nonce, its `body` the rest.
* `Recut t u`: the texts `id|room|sender` are the same, and are cut at different places.
* `Spills t u`: the header of `u` is longer than the one of `t`, and what is longer about it is
  spelled out by the nonce and the ciphertext of `t`.
* `payload_injective_iff`: two messages have the same payload if and only if they are the same
  message, or cannot be encoded at all, or one of these relations holds.
* `payload_injective_of_barFree`: both need a `|` in an id, a room or a sender, and where there is
  one, there is another way to cut the text (`barFree_iff_forall_not_recut`).
* `Doc.verifies_recut`: the signature of a message is one of every other message whose id and room
  are cut differently.

A payload determines the text it starts with since nothing that follows an encoded text can be
mistaken for a part of it (`utf8_prefix`).
-/

set_option autoImplicit false

namespace GroupChat

/-! ## Texts with bars

A header is taken apart from both ends: what precedes the first bar is known if the part in front
contains none, and what follows the last bar is known in any case. -/

theorem lit_bar : lit "|" = [124] := rfl

theorem bar_not_mem_intStr (n : ℤ) : 124 ∉ intStr n := by
  intro h
  have := mem_intStr h
  omega

/-- What stands before the first `|`, and what stands behind it. -/
theorem bar_append_injective {s s' t t' : Str} (hs : 124 ∉ s) (hs' : 124 ∉ s')
    (h : s ++ 124 :: t = s' ++ 124 :: t') : s = s' ∧ t = t' := by
  induction s generalizing s' with
  | nil =>
    cases s' with
    | nil => exact ⟨rfl, List.tail_eq_of_cons_eq h⟩
    | cons c' s' => exact absurd (List.head_eq_of_cons_eq h ▸ List.mem_cons_self) hs'
  | cons c s ih =>
    cases s' with
    | nil => exact absurd ((List.head_eq_of_cons_eq h).symm ▸ List.mem_cons_self) hs
    | cons c' s' =>
      obtain ⟨rfl, rfl⟩ := ih (List.not_mem_of_not_mem_cons hs) (List.not_mem_of_not_mem_cons hs')
        (List.tail_eq_of_cons_eq h)
      exact ⟨by rw [List.head_eq_of_cons_eq h], rfl⟩

/-- What stands before the last `|`, and what stands behind it. -/
theorem append_bar_injective {s s' t t' : Str} (ht : 124 ∉ t) (ht' : 124 ∉ t')
    (h : s ++ 124 :: t = s' ++ 124 :: t') : s = s' ∧ t = t' := by
  have hrev : t.reverse ++ 124 :: s.reverse = t'.reverse ++ 124 :: s'.reverse := by
    simpa using congrArg List.reverse h
  obtain ⟨htail, hinit⟩ := bar_append_injective (by rwa [List.mem_reverse])
    (by rwa [List.mem_reverse]) hrev
  exact ⟨List.reverse_inj.mp hinit, List.reverse_inj.mp htail⟩

/-- What `append_message` passes to `make_signable_payload`. -/
@[ext] structure Signable where
  msgId : Str
  roomId : Str
  sender : Str
  timestamp : ℤ
  nonce : Bytes
  ciphertext : Bytes
  codePoints_msgId : CodePoints msgId
  codePoints_roomId : CodePoints roomId
  codePoints_sender : CodePoints sender
  nonce_length : nonce.length = 12

namespace Signable

/-- The bytes that are signed. -/
def payload (L : PyLib) (t : Signable) : Except PyError Bytes :=
  makeSignablePayload L (.str t.msgId) (.str t.roomId) t.sender (.int t.timestamp) t.nonce
    t.ciphertext

/-- The strings that clients choose. -/
def text (t : Signable) : Str := t.msgId ++ lit "|" ++ t.roomId ++ lit "|" ++ t.sender

/-- What precedes the nonce. -/
def header (t : Signable) : Str := t.text ++ lit "|" ++ intStr t.timestamp ++ lit "|"

/-- The nonce and what follows it. -/
def body (t : Signable) : Bytes := t.nonce ++ [124] ++ t.ciphertext

/-- There is no lone surrogate in the strings. -/
def Encodable (t : Signable) : Prop := ∀ c ∈ t.text, ¬ (0xd800 ≤ c ∧ c < 0xe000)

/-- There is no `|` in the strings. -/
def BarFree (t : Signable) : Prop := 124 ∉ t.msgId ∧ 124 ∉ t.roomId ∧ 124 ∉ t.sender

/-- The messages differ in nothing but where one text is cut into id, room and sender. -/
def Recut (t u : Signable) : Prop :=
  t ≠ u ∧ t.text = u.text ∧ t.timestamp = u.timestamp ∧ t.nonce = u.nonce ∧
    t.ciphertext = u.ciphertext

/-- The header of `u` goes on where the one of `t` ends, and the nonce and the ciphertext of `t`
spell out the rest of it and the nonce and the ciphertext of `u`. -/
def Spills (t u : Signable) : Prop :=
  ∃ z e, z ≠ [] ∧ utf8 z = .ok e ∧ u.header = t.header ++ z ∧ t.body = e ++ u.body

variable {L : PyLib} {t u : Signable}

/-! ## Headers

The time is a number, which contains no bar, so the last two bars of a header belong to it.  All
bars before those may come from the strings of a client. -/

theorem codePoints_header (t : Signable) : CodePoints t.header :=
  have hbar : CodePoints (lit "|") := codePoints_lit _
  ((((((t.codePoints_msgId.append hbar).append t.codePoints_roomId).append hbar).append
    t.codePoints_sender).append hbar).append (codePoints_lit _)).append hbar

theorem payload_eq (t : Signable) : t.payload L = (utf8 t.header).map (· ++ t.body) := by
  have hheader : (Value.str t.msgId).toStr L ++ lit "|" ++ (Value.str t.roomId).toStr L ++
      lit "|" ++ t.sender ++ lit "|" ++ (Value.int t.timestamp).toStr L ++ lit "|" = t.header := rfl
  rw [payload, makeSignablePayload, hheader]
  cases utf8 t.header with
  | error e => rfl
  | ok h =>
    show Except.ok (h ++ t.nonce ++ [124] ++ t.ciphertext) = Except.ok (h ++ t.body)
    rw [body, List.append_assoc, List.append_assoc, List.append_assoc]

theorem payload_eq_ok_iff {b : Bytes} :
    t.payload L = .ok b ↔ ∃ h, utf8 t.header = .ok h ∧ b = h ++ t.body := by
  rw [payload_eq]
  cases utf8 t.header with
  | error e => simp [Except.map]
  | ok h => simp [Except.map, eq_comm]

/-- The time can always be encoded. -/
theorem encodable_iff : t.Encodable ↔ ∃ h, utf8 t.header = .ok h := by
  have hbar : ∀ c ∈ lit "|", ¬ (0xd800 ≤ c ∧ c < 0xe000) := by decide
  have htime : ∀ c ∈ intStr t.timestamp, ¬ (0xd800 ≤ c ∧ c < 0xe000) := by
    intro c hc
    have := mem_intStr hc
    omega
  rw [exists_utf8_iff, header, List.forall_mem_append, List.forall_mem_append,
    List.forall_mem_append, Encodable]
  exact ⟨fun h ↦ ⟨⟨⟨h, hbar⟩, htime⟩, hbar⟩, fun h ↦ h.1.1.1⟩

/-- The time is what stands between the last two bars of a header. -/
theorem header_injective (h : t.header = u.header) :
    t.text = u.text ∧ t.timestamp = u.timestamp := by
  rw [header, header, lit_bar] at h
  have htail := List.append_cancel_right h
  rw [List.append_assoc, List.append_assoc] at htail
  obtain ⟨htext, htime⟩ := append_bar_injective (bar_not_mem_intStr _) (bar_not_mem_intStr _) htail
  exact ⟨htext, intStr_injective htime⟩

/-- The nonce has a fixed length. -/
theorem body_injective (h : t.body = u.body) : t.nonce = u.nonce ∧ t.ciphertext = u.ciphertext := by
  rw [body, body, List.append_assoc, List.append_assoc] at h
  obtain ⟨hnonce, htail⟩ := List.append_inj h (t.nonce_length.trans u.nonce_length.symm)
  exact ⟨hnonce, List.append_cancel_left htail⟩

/-! ## Equal payloads

Two payloads are equal if the headers are and what is behind them is, or if one header is longer
and takes its surplus from the nonce of the other.  The first case is about the cuts in one text,
the second about bytes that look like text. -/

theorem Recut.header_eq (h : Recut t u) : t.header = u.header := by
  rw [header, header, h.2.1, h.2.2.1]

theorem Recut.body_eq (h : Recut t u) : t.body = u.body := by
  rw [body, body, h.2.2.2.1, h.2.2.2.2]

theorem Spills.ne (h : Spills t u) : t ≠ u := by
  rintro rfl
  obtain ⟨z, -, hz, -, hheader, -⟩ := h
  exact hz (List.self_eq_append_right.mp hheader)

theorem Recut.payload_eq (h : Recut t u) : t.payload L = u.payload L := by
  rw [Signable.payload_eq, Signable.payload_eq, h.header_eq, h.body_eq]

theorem Spills.payload_eq (h : Spills t u) (ht : t.Encodable) : t.payload L = u.payload L := by
  obtain ⟨z, e, -, hz, hheader, hbody⟩ := h
  obtain ⟨b, hb⟩ := encodable_iff.mp ht
  rw [Signable.payload_eq, Signable.payload_eq, hheader, hb, utf8_append hb hz, hbody]
  exact congrArg Except.ok (List.append_assoc ..).symm

/-- If the header of `t` is not the longer one, the other one starts with it. -/
theorem recut_or_spills {h h' : Bytes} (ht : utf8 t.header = .ok h) (hu : utf8 u.header = .ok h')
    (heq : h ++ t.body = h' ++ u.body) (hle : h.length ≤ h'.length) (hne : t ≠ u) :
    Recut t u ∨ Spills t u := by
  obtain ⟨z, e, hz, he, rfl⟩ :=
    utf8_prefix t.codePoints_header u.codePoints_header ht hu heq hle
  rw [List.append_assoc] at heq
  have hbody : t.body = e ++ u.body := List.append_cancel_left heq
  rcases List.eq_nil_or_concat' z with rfl | ⟨y, c, rfl⟩
  · obtain rfl : [] = e := Except.ok.inj he
    rw [List.append_nil] at hz
    obtain ⟨htext, htime⟩ := header_injective hz.symm
    obtain ⟨hnonce, hciphertext⟩ := body_injective hbody
    exact Or.inl ⟨hne, htext, htime, hnonce, hciphertext⟩
  · exact Or.inr ⟨_, e, by simp, he, hz, hbody⟩

-- the nonce of the first message starts with the time of the second one
example : Spills
    ⟨lit "a", lit "b", lit "c", 5, [54, 124] ++ List.replicate 10 0, [0, 124, 104, 105],
      codePoints_lit _, codePoints_lit _, codePoints_lit _, by decide⟩
    ⟨lit "a|b", lit "c", lit "5", 6, List.replicate 10 0 ++ [124, 0], [104, 105],
      codePoints_lit _, codePoints_lit _, codePoints_lit _, by decide⟩ :=
  ⟨lit "6|", [54, 124], by decide, rfl, rfl, rfl⟩

theorem Recut.symm (h : Recut t u) : Recut u t :=
  ⟨h.1.symm, h.2.1.symm, h.2.2.1.symm, h.2.2.2.1.symm, h.2.2.2.2.symm⟩

/-- What can be said of two messages with one payload. -/
theorem payload_collision {b : Bytes} (ht : t.payload L = .ok b) (hu : u.payload L = .ok b) :
    t = u ∨ Recut t u ∨ Spills t u ∨ Spills u t := by
  by_cases hne : t = u
  · exact Or.inl hne
  right
  obtain ⟨x, hx, rfl⟩ := payload_eq_ok_iff.mp ht
  obtain ⟨y, hy, heq⟩ := payload_eq_ok_iff.mp hu
  rcases Nat.le_total x.length y.length with hle | hle
  · rcases recut_or_spills hx hy heq hle hne with hr | hs
    · exact Or.inl hr
    · exact Or.inr (Or.inl hs)
  · rcases recut_or_spills hy hx heq.symm hle (Ne.symm hne) with hr | hs
    · exact Or.inl hr.symm
    · exact Or.inr (Or.inr hs)

/-- **Two messages have one payload if and only if they are one message, or cannot be encoded, or
one text is cut differently in them, or the nonce and the ciphertext of one of them spell out more
of the header of the other.** -/
theorem payload_injective_iff (L : PyLib) (t u : Signable) :
    (∀ b, t.payload L = .ok b → u.payload L = .ok b → t = u) ↔
      (t.Encodable → u.Encodable → ¬ Recut t u ∧ ¬ Spills t u ∧ ¬ Spills u t) := by
  constructor
  · intro h ht hu
    obtain ⟨b, hb⟩ := encodable_iff.mp ht
    have htu : t.payload L = u.payload L → t = u := fun heq ↦ by
      have hok : t.payload L = .ok (b ++ t.body) := payload_eq_ok_iff.mpr ⟨b, hb, rfl⟩
      exact h _ hok (heq ▸ hok)
    exact ⟨fun hr ↦ hr.1 (htu hr.payload_eq), fun hs ↦ hs.ne (htu (hs.payload_eq ht)),
      fun hs ↦ hs.ne (htu (hs.payload_eq hu).symm).symm⟩
  · intro h b ht hu
    obtain ⟨x, hx, -⟩ := payload_eq_ok_iff.mp ht
    obtain ⟨y, hy, -⟩ := payload_eq_ok_iff.mp hu
    obtain ⟨hr, hs, hs'⟩ := h (encodable_iff.mpr ⟨x, hx⟩) (encodable_iff.mpr ⟨y, hy⟩)
    rcases payload_collision ht hu with heq | h | h | h
    · exact heq
    · exact absurd h hr
    · exact absurd h hs
    · exact absurd h hs'

/-! ## Where the bars are

With no bar in any string, there are exactly as many bars in a header as the format puts there,
and both relations would need one more. -/

theorem count_text (t : Signable) : t.text.count 124 =
    t.msgId.count 124 + t.roomId.count 124 + t.sender.count 124 + 2 := by
  simp only [text, lit_bar, List.count_append, List.count_singleton_self]
  omega

theorem barFree_iff : t.BarFree ↔ t.text.count 124 = 2 := by
  rw [BarFree, ← List.count_eq_zero, ← List.count_eq_zero, ← List.count_eq_zero, count_text]
  omega

theorem count_header (t : Signable) : t.header.count 124 = t.text.count 124 + 2 := by
  simp only [header, lit_bar, List.count_append, List.count_singleton_self,
    List.count_eq_zero.mpr (bar_not_mem_intStr _)]

/-- The longer header has more bars. -/
theorem Spills.count_lt (h : Spills t u) : t.text.count 124 < u.text.count 124 := by
  obtain ⟨z, e, hz, -, hheader, -⟩ := h
  obtain ⟨y, c, rfl⟩ := (List.eq_nil_or_concat' z).resolve_left hz
  have hlast : u.header.getLast? = some 124 := List.getLast?_concat
  rw [hheader, ← List.append_assoc, List.getLast?_concat] at hlast
  have hcount := congrArg (List.count 124) hheader
  rw [List.count_append, List.count_append, Option.some.inj hlast, List.count_singleton_self,
    count_header, count_header] at hcount
  omega

theorem BarFree.text_injective (ht : t.BarFree) (hu : u.BarFree) (h : t.text = u.text) :
    t.msgId = u.msgId ∧ t.roomId = u.roomId ∧ t.sender = u.sender := by
  simp only [text, lit_bar, List.append_assoc, List.singleton_append] at h
  obtain ⟨hid, h⟩ := bar_append_injective ht.1 hu.1 h
  obtain ⟨hroom, hsender⟩ := bar_append_injective ht.2.1 hu.2.1 h
  exact ⟨hid, hroom, hsender⟩

/-- **Without a `|` in the strings, a payload belongs to one message.** -/
theorem payload_injective_of_barFree (ht : t.BarFree) (hu : u.BarFree) {b : Bytes}
    (htb : t.payload L = .ok b) (hub : u.payload L = .ok b) : t = u := by
  have htcount := barFree_iff.mp ht
  have hucount := barFree_iff.mp hu
  rcases payload_collision htb hub with heq | hr | hs | hs
  · exact heq
  · obtain ⟨hid, hroom, hsender⟩ := ht.text_injective hu hr.2.1
    exact Signable.ext hid hroom hsender hr.2.2.1 hr.2.2.2.1 hr.2.2.2.2
  · have := hs.count_lt
    omega
  · have := hs.count_lt
    omega

theorem codePoints_text (t : Signable) : CodePoints t.text :=
  fun c hc ↦ t.codePoints_header c (by simp [header, hc])

/-- The message with its text cut into these strings. -/
def cutAs (t : Signable) (msgId roomId sender : Str)
    (h : msgId ++ lit "|" ++ roomId ++ lit "|" ++ sender = t.text) : Signable where
  msgId := msgId
  roomId := roomId
  sender := sender
  timestamp := t.timestamp
  nonce := t.nonce
  ciphertext := t.ciphertext
  codePoints_msgId c hc := t.codePoints_text c (by simp [← h, hc])
  codePoints_roomId c hc := t.codePoints_text c (by simp [← h, hc])
  codePoints_sender c hc := t.codePoints_text c (by simp [← h, hc])
  nonce_length := t.nonce_length

theorem recut_cutAs (msgId roomId sender : Str)
    (h : msgId ++ lit "|" ++ roomId ++ lit "|" ++ sender = t.text)
    (hne : msgId.length ≠ t.msgId.length) : Recut t (t.cutAs msgId roomId sender h) :=
  ⟨fun heq ↦ hne (congrArg (fun u ↦ u.msgId.length) heq).symm, h.symm, rfl, rfl, rfl⟩

/-- **A message has a text that can be cut in one way only if and only if there is no `|` in its
strings.** -/
theorem barFree_iff_forall_not_recut : t.BarFree ↔ ∀ u, ¬ Recut t u := by
  constructor
  · rintro ht u ⟨hne, htext, htime, hnonce, hciphertext⟩
    obtain ⟨hid, hroom, hsender⟩ :=
      ht.text_injective (barFree_iff.mpr (htext ▸ barFree_iff.mp ht)) htext
    exact hne (Signable.ext hid hroom hsender htime hnonce hciphertext)
  · intro h
    refine ⟨fun hid ↦ ?_, fun hroom ↦ ?_, fun hsender ↦ ?_⟩
    · obtain ⟨a, b, hab⟩ := List.append_of_mem hid
      refine h _ (recut_cutAs a (b ++ lit "|" ++ t.roomId) t.sender ?_ ?_)
      · simp [text, hab, lit_bar]
      · simp [hab]
    · obtain ⟨a, b, hab⟩ := List.append_of_mem hroom
      refine h _ (recut_cutAs (t.msgId ++ lit "|" ++ a) b t.sender ?_ ?_)
      · simp [text, hab, lit_bar]
      · simp [lit_bar]
    · obtain ⟨a, b, hab⟩ := List.append_of_mem hsender
      refine h _ (recut_cutAs (t.msgId ++ lit "|" ++ t.roomId) a b ?_ ?_)
      · simp [text, hab, lit_bar]
      · simp [lit_bar]

end Signable

/-! ## Replay

A signature does not depend on where its text was cut, so a document with other cuts verifies as
well. -/

/-- **Whoever has a signed message has one for every way to cut its id and its room.** -/
theorem Doc.verifies_recut {L : PyLib} {K : Keyring} {keys : KeyStore} {d : Doc}
    {msgId roomId msgId' roomId' : Str} (hid : d.id = .str msgId) (hroom : d.roomId = .str roomId)
    (h : msgId ++ lit "|" ++ roomId = msgId' ++ lit "|" ++ roomId') :
    { d with id := .str msgId', roomId := .str roomId' }.verifies L K keys =
      d.verifies L K keys := by
  have hmake : ∀ nonce ciphertext,
      makeSignablePayload L (.str msgId') (.str roomId') d.sender d.timestamp nonce ciphertext =
        makeSignablePayload L d.id d.roomId d.sender d.timestamp nonce ciphertext := by
    intro nonce ciphertext
    simp only [makeSignablePayload, hid, hroom, Value.toStr_str, h]
  simp only [Doc.verifies, hmake]

/-! ## Two messages

Both messages can be posted by anybody; ids and rooms are taken as they come. -/

/-- A message with this id in this room. -/
def barMessage (msgId roomId : String) : Signable where
  msgId := lit msgId
  roomId := lit roomId
  sender := lit "Alice"
  timestamp := 0
  nonce := List.replicate 12 0
  ciphertext := [104, 105]
  codePoints_msgId := codePoints_lit _
  codePoints_roomId := codePoints_lit _
  codePoints_sender := codePoints_lit _
  nonce_length := by decide

/-- It is posted and stored. -/
def barPost (msgId roomId : String) : List Node.Event :=
  [.post (.json (some (.dict [("id", .str (lit msgId)), ("room", .str (lit roomId)),
    ("client-name", .str (lit "Alice")), ("msg", .str (lit "hi"))]))) [] 0 [],
    .runJob 0 0 (List.replicate 12 0)]

/-- What is signed. -/
def barBytes : Bytes :=
  (lit "a|b|c|Alice|0|").map UInt8.ofNat ++ List.replicate 12 0 ++ [124, 104, 105]

/-- **The message `a|b` in the room `c` and the message `a` in the room `b|c` are signed alike**,
and both of them can be posted. -/
theorem not_payload_injective :
    (barMessage "a|b" "c").payload plainEnv.lib = .ok barBytes ∧
      (barMessage "a" "b|c").payload plainEnv.lib = .ok barBytes ∧
      barMessage "a|b" "c" ≠ barMessage "a" "b|c" ∧
      ∃ n, (Node.system plainEnv).Reachable n ∧
        n.store.docs.map (fun d ↦ (d.id.str?, d.roomId.str?, d.signature)) =
          [("a|b", "c"), ("a", "b|c")].map fun m ↦ (some (lit m.1), some (lit m.2),
            hex (plainEnv.keyring.crypto.sign (keyFor plainEnv.lib plainEnv.keyring (lit "Alice"))
              barBytes)) := by
  have hexec : (Transition.System.exec (Node.step plainEnv) (Node.initial plainEnv)
      (barPost "a|b" "c" ++ barPost "a" "b|c")).map (fun n ↦
        n.store.docs.map fun d ↦ (d.id.str?, d.roomId.str?, d.signature)) =
      some ([("a|b", "c"), ("a", "b|c")].map fun m ↦ (some (lit m.1), some (lit m.2),
        hex (plainEnv.keyring.crypto.sign (keyFor plainEnv.lib plainEnv.keyring (lit "Alice"))
          barBytes))) := by
    decide +kernel
  obtain ⟨n, hn, hdocs⟩ := Option.map_eq_some_iff.mp hexec
  refine ⟨rfl, rfl, fun h ↦ ?_, n, (Transition.System.trace_of_exec hn).reachable rfl, hdocs⟩
  exact absurd (congrArg Signable.msgId h) (by decide)

end GroupChat
