import GroupChat.Lib.Separators
import GroupChat.Cluster.Gossip
import GroupChat.Py.Utf8

/-!
# Which peers a node takes for itself

`_get_valid_peers` leaves an address out if `:PORT` and the name of the local host occur in it,
anywhere.  This file takes addresses apart and says what that means.

* `PeerUrl` is an address of the form `scheme://host[:port][/path]`, and `PeerUrl.isSelf` says that
  it is one of the node itself.
* `isOwn_rstripSlash_text`: where the two tests of the code look, in terms of the parts.
* `PeerUrl.Mistaken` addresses are those of others that are left out, and `PeerUrl.Missed` those of
  the node itself that are kept; `getValidPeers_iff`: there are no other errors.
-/

set_option autoImplicit false

open scoped List

namespace GroupChat

open Separators

/-! ## Addresses

An address is written with a scheme, a host, perhaps a port and a path.  What it refers to is
decided by these parts, and the code looks at the text as a whole. -/

/-- The names of the machine itself. -/
def localNames : List Str := [lit "localhost", lit "127.0.0.1"]

/-- An address of a peer. -/
structure PeerUrl where
  scheme : Str
  host : Str
  /-- What is behind the colon, if there is one. -/
  port : Option Str
  path : Str
  scheme_plain : 47 ∉ scheme ∧ 58 ∉ scheme
  host_ne_nil : host ≠ []
  host_plain : 47 ∉ host
  /-- Only an address in brackets has colons. -/
  host_colon : 58 ∈ host → host.head? = some 91 ∧ host.getLast? = some 93
  port_digits : ∀ digits ∈ port, ∀ c ∈ digits, 48 ≤ c ∧ c ≤ 57
  path_slash : path = [] ∨ path.head? = some 47

namespace PeerUrl

/-- The port as it is written. -/
def portText (u : PeerUrl) : Str :=
  match u.port with
  | none => []
  | some digits => 58 :: digits

/-- The address as it is written. -/
def text (u : PeerUrl) : Str := u.scheme ++ 58 :: 47 :: 47 :: (u.host ++ u.portText ++ u.path)

/-- The port; a scheme may have a default one. -/
def portValue (u : PeerUrl) (defaultPort : Str → Option ℤ) : Option ℤ :=
  match u.port with
  | none => defaultPort u.scheme
  | some digits => if digits = [] then defaultPort u.scheme else asciiDigits digits

/-- The address is one of the node itself. -/
def isSelf (u : PeerUrl) (defaultPort : Str → Option ℤ) (port : ℤ) : Bool :=
  decide (u.host ∈ localNames) && decide (u.portValue defaultPort = some port)

/-- `:PORT` occurs in the address: the port begins with it, or it is in the host or in the path. -/
def PortSeen (u : PeerUrl) (port : ℤ) : Prop :=
  (∃ digits ∈ u.port, intStr port <+: digits) ∨ lit ":" ++ intStr port <:+: u.host ∨
    lit ":" ++ intStr port <:+: u.path

/-- One of the names of the machine occurs in the address. -/
def NameSeen (u : PeerUrl) : Prop :=
  ∃ name ∈ localNames, name <:+: u.scheme ∨ name <:+: u.host ∨ name <:+: u.path

/-- The address of another node that is taken for one of the node itself. -/
def Mistaken (u : PeerUrl) (defaultPort : Str → Option ℤ) (port : ℤ) : Prop :=
  u.isSelf defaultPort port = false ∧ u.PortSeen port ∧ u.NameSeen

/-- An address of the node itself, with a port that is written in another way, or not at all. -/
def Missed (u : PeerUrl) (defaultPort : Str → Option ℤ) (port : ℤ) : Prop :=
  u.isSelf defaultPort port = true ∧ ¬u.PortSeen port

variable {u : PeerUrl} {x : Str}

/-! ## The parts of an address

A word that has no slash lies within one of the parts, or across the border of two of them, if it
occurs at all. -/

/-- In front of the path there is no slash at the end. -/
theorem exists_getLast?_authority (u : PeerUrl) :
    ∃ c, (u.host ++ u.portText).getLast? = some c ∧ (c == 47) = false := by
  have hne : u.host ++ u.portText ≠ [] := by simp [u.host_ne_nil]
  refine ⟨_, List.getLast?_eq_some_getLast hne, ?_⟩
  have hmem := List.getLast_mem hne
  rw [beq_eq_false_iff_ne]
  intro heq
  rw [heq] at hmem
  rcases List.mem_append.mp hmem with hmem | hmem
  · exact u.host_plain hmem
  · rw [portText] at hmem
    split at hmem
    · exact absurd hmem List.not_mem_nil
    · rename_i digits hport
      rcases List.mem_cons.mp hmem with h | h
      · exact absurd h (by decide)
      · have := u.port_digits digits hport 47 h
        omega

/-- Slashes are cut off from the path only. -/
theorem rstripSlash_text (u : PeerUrl) :
    rstripSlash u.text =
      u.scheme ++ 58 :: 47 :: 47 :: (u.host ++ u.portText ++ rstripSlash u.path) := by
  obtain ⟨c, hc, hslash⟩ := u.exists_getLast?_authority
  have hlast : (u.scheme ++ 58 :: 47 :: 47 :: (u.host ++ u.portText)).getLast? = some c := by
    have hsplit : u.scheme ++ 58 :: 47 :: 47 :: (u.host ++ u.portText) =
        (u.scheme ++ [58, 47, 47]) ++ (u.host ++ u.portText) := by simp
    rw [hsplit, List.getLast?_append, hc]
    rfl
  have htext : u.text = u.scheme ++ 58 :: 47 :: 47 :: (u.host ++ u.portText) ++ u.path := by
    simp [text]
  rw [htext, rstripSlash, rdropWhile_append_of_getLast? hlast hslash]
  simp [rstripSlash]

/-- A word without slashes that is in the path is behind its first slash. -/
theorem infix_append_path_iff {a path : Str} (hx : 47 ∉ x)
    (hpath : path = [] ∨ path.head? = some 47) :
    x <:+: a ++ path ↔ x <:+: a ∨ x <:+: path := by
  rcases hpath with rfl | hpath
  · rw [List.append_nil, List.infix_nil]
    refine ⟨Or.inl, fun h ↦ h.elim id ?_⟩
    rintro rfl
    exact List.nil_infix
  · cases path with
    | nil => exact absurd hpath (by simp)
    | cons c path =>
      obtain rfl := Option.some.inj hpath
      have hcons : x <:+: 47 :: path ↔ x <:+: path := by
        rw [← List.nil_append (47 :: path), infix_append_cons_iff hx, List.infix_nil]
        refine ⟨fun h ↦ h.elim ?_ id, Or.inr⟩
        rintro rfl
        exact List.nil_infix
      rw [infix_append_cons_iff hx, hcons]

theorem rstripSlash_slash {path : Str} (hpath : path = [] ∨ path.head? = some 47) :
    rstripSlash path = [] ∨ (rstripSlash path).head? = some 47 := by
  rcases hpath with rfl | hhead
  · exact Or.inl rfl
  · cases hstrip : rstripSlash path with
    | nil => exact Or.inl rfl
    | cons c rest =>
      obtain ⟨t, ht⟩ : rstripSlash path <+: path := List.rdropWhile_prefix _ _
      rw [← ht, hstrip] at hhead
      exact Or.inr hhead

/-- A word without slashes is found in one of the parts. -/
theorem infix_rstripSlash_text_iff (hx : 47 ∉ x) (hne : x ≠ []) :
    x <:+: rstripSlash u.text ↔
      x <:+: u.scheme ++ [58] ∨ x <:+: u.host ++ u.portText ∨ x <:+: u.path := by
  have hnil : ¬x <:+: [] := fun h ↦ hne (List.infix_nil.mp h)
  have hpath : x <:+: rstripSlash u.path ↔ x <:+: u.path := by
    rcases List.eq_nil_or_concat x with h | ⟨y, c, hy⟩
    · exact absurd h hne
    · rw [List.concat_eq_append] at hy
      have hc : (c == 47) = false := by
        rw [beq_eq_false_iff_ne]
        rintro rfl
        exact hx (by rw [hy]; exact List.mem_append_right _ List.mem_cons_self)
      rw [hy]
      exact infix_rdropWhile_iff hc
  have hparts : rstripSlash u.text = (u.scheme ++ [58]) ++ 47 :: ([] ++ 47 ::
      (u.host ++ u.portText ++ rstripSlash u.path)) := by
    rw [rstripSlash_text]
    simp
  rw [hparts, infix_append_cons_iff hx, infix_append_cons_iff hx, or_iff_right hnil,
    infix_append_path_iff hx (rstripSlash_slash u.path_slash), hpath]

/-! ## What the code looks for

Both tests are for words without slashes, so they can be answered part by part. -/

theorem mem_localNames_plain {name : Str} (h : name ∈ localNames) :
    47 ∉ name ∧ 58 ∉ name ∧ name ≠ [] ∧ ∃ c ∈ name, ¬(48 ≤ c ∧ c ≤ 57) := by
  simp only [localNames, List.mem_cons, List.not_mem_nil, or_false] at h
  rcases h with rfl | rfl
  · exact ⟨by decide, by decide, by decide, 108, by decide, by decide⟩
  · exact ⟨by decide, by decide, by decide, 46, by decide, by decide⟩

theorem intStr_plain (port : ℤ) : 47 ∉ intStr port ∧ 58 ∉ intStr port ∧ intStr port ≠ [] := by
  refine ⟨fun h ↦ ?_, fun h ↦ ?_, ?_⟩
  · have := mem_intStr h
    omega
  · have := mem_intStr h
    omega
  · intro h
    have hlit : toString port = "" := lit_injective h
    cases port with
    | ofNat n => exact Nat.repr_ne_empty hlit
    | negSucc n =>
      have hminus : "-" ++ Nat.repr (n + 1) = "" := hlit
      rw [String.append_eq_empty_iff] at hminus
      exact absurd hminus.1 (by decide)

theorem nameSeen_iff {name : Str} (hname : name ∈ localNames) :
    name <:+: rstripSlash u.text ↔
      name <:+: u.scheme ∨ name <:+: u.host ∨ name <:+: u.path := by
  obtain ⟨hslash, hcolon, hne, c, hc, hdigit⟩ := mem_localNames_plain hname
  have hnil : ¬name <:+: [] := fun h ↦ hne (List.infix_nil.mp h)
  have hscheme : name <:+: u.scheme ++ [58] ↔ name <:+: u.scheme := by
    rw [infix_append_cons_iff hcolon, or_iff_left hnil]
  have hport : name <:+: u.host ++ u.portText ↔ name <:+: u.host := by
    rw [portText]
    split
    · rw [List.append_nil]
    · rename_i digits hdigits
      rw [infix_append_cons_iff hcolon, or_iff_left]
      exact fun h ↦ hdigit (u.port_digits digits hdigits c (h.subset hc))
  rw [infix_rstripSlash_text_iff hslash hne, hscheme, hport]

theorem portSeen_iff {port : ℤ} :
    lit ":" ++ intStr port <:+: rstripSlash u.text ↔ u.PortSeen port := by
  obtain ⟨hslash, hcolon, hne⟩ := intStr_plain port
  have hlit : lit ":" ++ intStr port = 58 :: intStr port := rfl
  have hin : ∀ a : Str, 58 :: intStr port <:+: a → 58 ∈ a :=
    fun a h ↦ h.subset List.mem_cons_self
  have hword : 47 ∉ 58 :: intStr port := fun h ↦ (List.mem_cons.mp h).elim (by decide) hslash
  have hscheme : ¬58 :: intStr port <:+: u.scheme ++ [58] := by
    rw [cons_infix_append_cons_iff hcolon, List.prefix_nil, List.infix_nil]
    rintro (h | h | h)
    · exact u.scheme_plain.2 (hin _ h)
    · exact hne h
    · exact absurd h (by simp)
  have hport : 58 :: intStr port <:+: u.host ++ u.portText ↔
      (∃ digits ∈ u.port, intStr port <+: digits) ∨ 58 :: intStr port <:+: u.host := by
    rw [portText]
    split
    · rename_i hport
      rw [List.append_nil, hport]
      simp
    · rename_i digits hdigits
      have hplain : ¬58 :: intStr port <:+: digits := by
        intro h
        have := u.port_digits digits hdigits 58 (hin _ h)
        omega
      rw [cons_infix_append_cons_iff hcolon, or_iff_left hplain, or_comm, hdigits]
      simp
  rw [PortSeen, hlit, infix_rstripSlash_text_iff hword (List.cons_ne_nil _ _),
    or_iff_right hscheme, hport, or_assoc]

/-! ## The test of the code

Where `:PORT` is seen and where a name of the machine is seen are two questions, and the code
answers each of them by itself: they may be seen at different places of the address. -/

/-- **Where the two tests of the code look.** -/
theorem isOwn_rstripSlash_text (site : Site) (u : PeerUrl) :
    site.isOwn (rstripSlash u.text) = true ↔ u.PortSeen site.port ∧ u.NameSeen := by
  have hnames : u.NameSeen ↔
      lit "localhost" <:+: rstripSlash u.text ∨ lit "127.0.0.1" <:+: rstripSlash u.text := by
    rw [nameSeen_iff (u := u) (by simp [localNames]), nameSeen_iff (u := u) (by simp [localNames])]
    simp [NameSeen, localNames]
  rw [hnames, ← portSeen_iff]
  simp [Site.isOwn]

/-- An address is never left out for being empty. -/
theorem strip_text_ne_nil (u : PeerUrl) : u.text.strip ≠ [] := by
  intro h
  have hcolon : 58 ∈ u.text := by simp [text]
  have hspace : isSpace 58 = true := by
    rw [Str.strip, List.rdropWhile_eq_nil_iff] at h
    rw [← List.takeWhile_append_dropWhile (p := isSpace) (l := u.text)] at hcolon
    rcases List.mem_append.mp hcolon with hmem | hmem
    · exact List.mem_takeWhile_imp hmem
    · exact h 58 hmem
  exact absurd hspace (by decide)

/-- The host of an address of the node itself is a name of the machine. -/
theorem nameSeen_of_isSelf {defaultPort : Str → Option ℤ} {port : ℤ}
    (h : u.isSelf defaultPort port = true) : u.NameSeen := by
  rw [isSelf, Bool.and_eq_true, decide_eq_true_eq] at h
  exact ⟨u.host, h.1, Or.inr (Or.inl (List.infix_refl _))⟩

/-! ## When the test is right

There are two kinds of errors.  An address of another node may contain both words somewhere, and
an address of the node itself may be written without the port. -/

/-- **When the test of the code is right about an address.** -/
theorem isOwn_eq_isSelf_iff (site : Site) (defaultPort : Str → Option ℤ) (u : PeerUrl) :
    site.isOwn (rstripSlash u.text) = u.isSelf defaultPort site.port ↔
      ¬u.Mistaken defaultPort site.port ∧ ¬u.Missed defaultPort site.port := by
  rw [Bool.eq_iff_iff, isOwn_rstripSlash_text]
  constructor
  · intro h
    refine ⟨?_, ?_⟩
    · rintro ⟨hother, hseen⟩
      rw [h.mp hseen] at hother
      exact absurd hother (by simp)
    · rintro ⟨hself, hport⟩
      exact hport (h.mpr hself).1
  · rintro ⟨hmistaken, hmissed⟩
    constructor
    · intro hseen
      by_contra hother
      exact hmistaken ⟨by simpa using hother, hseen⟩
    · intro hself
      refine ⟨?_, nameSeen_of_isSelf hself⟩
      by_contra hport
      exact hmissed ⟨hself, hport⟩

end PeerUrl

/-- **Which lists of addresses are filtered as they should be.**  What is kept are the addresses of
the others, in order and without slashes at the end, exactly if none of the addresses is mistaken
for one of the node itself, and none of these is missed. -/
theorem Site.getValidPeers_iff (site : Site) (defaultPort : Str → Option ℤ)
    (peers : List PeerUrl) :
    { site with peers := peers.map PeerUrl.text }.getValidPeers =
        (peers.filter fun u ↦ !u.isSelf defaultPort site.port).map
          (fun u ↦ rstripSlash u.text) ↔
      ∀ u ∈ peers, ¬u.Mistaken defaultPort site.port ∧ ¬u.Missed defaultPort site.port := by
  have hvalid : { site with peers := peers.map PeerUrl.text }.getValidPeers =
      (peers.map fun u ↦ rstripSlash u.text).filter fun p ↦ !site.isOwn p := by
    have hnonempty : ((peers.map PeerUrl.text).filter fun p ↦ decide (p.strip ≠ [])) =
        peers.map PeerUrl.text := by
      rw [List.filter_eq_self]
      intro p hp
      obtain ⟨u, -, rfl⟩ := List.mem_map.mp hp
      exact decide_eq_true u.strip_text_ne_nil
    simp only [getValidPeers, hnonempty, List.map_map]
    rfl
  rw [hvalid, filter_map_eq_map_filter_iff]
  refine forall₂_congr fun u hu ↦ ?_
  rw [← PeerUrl.isOwn_eq_isSelf_iff, Bool.not_inj_iff]

/-- An address with the port of the node is not missed if the port is written like `PORT`. -/
theorem PeerUrl.not_missed_of_port {u : PeerUrl} {defaultPort : Str → Option ℤ} {port : ℤ}
    (h : u.port = some (intStr port)) : ¬u.Missed defaultPort port :=
  fun hmissed ↦ hmissed.2 (Or.inl ⟨_, h, List.prefix_refl _⟩)

/-- Another node on the same machine. -/
def neighbourUrl : PeerUrl where
  scheme := lit "http"
  host := lit "localhost"
  port := some (lit "5001")
  path := []
  scheme_plain := by decide
  host_ne_nil := by decide
  host_plain := by decide
  host_colon := by decide
  port_digits := by decide
  path_slash := Or.inl rfl

/-- **A node on port 500 leaves its neighbour on port 5001 out.** -/
theorem not_kept_neighbour :
    neighbourUrl.text = lit "http://localhost:5001" ∧
      (⟨plainEnv.keyring, plainEnv.config, 500, [neighbourUrl].map PeerUrl.text⟩ :
        Site).getValidPeers = [] ∧
      (([neighbourUrl].filter fun u ↦ !u.isSelf (fun _ ↦ none) 500).map fun u ↦
        rstripSlash u.text) = [lit "http://localhost:5001"] := by
  decide +kernel

end GroupChat
