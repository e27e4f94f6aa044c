import Quackhole.Ticket.Address
import Quackhole.Ticket.Keys

/-!
# The forms of an address

A host is written alone, with its port, as a URL with or without a path, or with
a scheme and no slashes.  All of these are read alike: the answer is the host
without its suffix.  What an address can be mistaken for is a scheme, and only a
host without a dot is, which is no `.iroh` host either way.
-/

namespace Quackhole.Ticket

open Quackhole.Word

/-- A host as it stands in an address. -/
structure Host where
  text : Text
  colon_notMem : ':' ∉ text
  slash_notMem : '/' ∉ text
  solid : Solid text

/-- The documented spellings of an address. -/
inductive AddressForm (host : Host) : Text → Prop where
  | host : AddressForm host host.text
  | hostPort {port : Text} (digits : port.all Char.isDigit = true) :
      AddressForm host (host.text ++ ':' :: port)
  | schemeHostPort {scheme port : Text} (nonempty : scheme ≠ [])
      (letters : scheme.all Char.isAlpha = true) (digits : port.all Char.isDigit = true)
      (dotted : '.' ∈ host.text) : AddressForm host (scheme ++ ':' :: (host.text ++ ':' :: port))
  | url {scheme : Text} (letters : scheme.all Char.isAlpha = true) :
      AddressForm host (scheme ++ "://".toList ++ host.text)
  | urlPort {scheme port : Text} (letters : scheme.all Char.isAlpha = true)
      (digits : port.all Char.isDigit = true) :
      AddressForm host (scheme ++ "://".toList ++ (host.text ++ ':' :: port))
  | urlPath {scheme port : Text} (letters : scheme.all Char.isAlpha = true)
      (digits : port.all Char.isDigit = true) (path : Text) :
      AddressForm host (scheme ++ "://".toList ++ (host.text ++ ':' :: port) ++ '/' :: path)

/-! ## Schemes and ports -/

theorem notMem_of_letters {text : Text} (letters : text.all Char.isAlpha = true) {c : Char}
    (other : c.isAlpha = false) : c ∉ text := by
  intro member
  rw [List.all_eq_true.mp letters c member] at other
  cases other

theorem notMem_of_digits {text : Text} (digits : text.all Char.isDigit = true) {c : Char}
    (other : c.isDigit = false) : c ∉ text := by
  intro member
  rw [List.all_eq_true.mp digits c member] at other
  cases other

theorem solid_of_letters {text : Text} (letters : text.all Char.isAlpha = true) : Solid text := by
  intro c member
  apply not_isWhitespace_of_isUrlSafe
  have letter := List.all_eq_true.mp letters c member
  exact Or.inl (by rw [Char.isAlphanum, letter, Bool.true_or])

theorem solid_of_digits {text : Text} (digits : text.all Char.isDigit = true) : Solid text := by
  intro c member
  apply not_isWhitespace_of_isUrlSafe
  have digit := List.all_eq_true.mp digits c member
  exact Or.inl (by rw [Char.isAlphanum, digit, Bool.or_true])

/-! ## Trimming -/

/-- Trimming an address takes the blanks around it and leaves it in its form.
Blanks at the end of a path go as well. -/
theorem AddressForm.exists_trim {host : Host} {text : Text} (form : AddressForm host text)
    {before after : Text} (blankBefore : Blank before) (blankAfter : Blank after) :
    ∃ trimmed, AddressForm host trimmed ∧ trim (before ++ text ++ after) = trimmed := by
  have whole : Solid text →
      ∃ trimmed, AddressForm host trimmed ∧ trim (before ++ text ++ after) = trimmed := by
    intro solid
    refine ⟨text, form, ?_⟩
    rw [trim_append_append blankBefore blankAfter, trim_eq_self solid]
  have hostPort : ∀ {port : Text}, port.all Char.isDigit = true →
      Solid (host.text ++ ':' :: port) := fun digits =>
    host.solid.append (.cons (by decide) (solid_of_digits digits))
  have scheme : ∀ {scheme : Text}, scheme.all Char.isAlpha = true →
      Solid (scheme ++ "://".toList) := fun letters =>
    (solid_of_letters letters).append (by decide)
  cases form with
  | host => exact whole host.solid
  | hostPort digits => exact whole (hostPort digits)
  | schemeHostPort nonempty letters digits dotted =>
      exact whole ((solid_of_letters letters).append (.cons (by decide) (hostPort digits)))
  | url letters => exact whole ((scheme letters).append host.solid)
  | urlPort letters digits => exact whole ((scheme letters).append (hostPort digits))
  | @urlPath name port letters digits path =>
      have front : Solid (name ++ "://".toList ++ (host.text ++ ':' :: port) ++ ['/']) :=
        ((scheme letters).append (hostPort digits)).append (by decide)
      have trimmed := trim_append_of_solid (by simp) front before (path ++ after)
      rw [List.dropWhile_eq_nil_iff.mpr blankBefore, List.nil_append] at trimmed
      refine ⟨_, .urlPath letters digits ((path ++ after).rdropWhile isWhitespace), ?_⟩
      simpa only [List.append_assoc, List.cons_append, List.nil_append] using trimmed

/-! ## The host of an address -/

/-- What is left of an address when its scheme, its path and its port are cut
off. -/
def hostOf (text : Text) : Text :=
  beforeLast ':' (beforeFirst '/' (withoutScheme text))

theorem withoutScheme_url {scheme : Text} (letters : scheme.all Char.isAlpha = true)
    (rest : Text) : withoutScheme (scheme ++ "://".toList ++ rest) = rest := by
  have absent : ¬ "://".toList <:+: scheme := by
    intro inside
    have colon : ':' ∈ scheme := inside.subset (by decide)
    exact notMem_of_letters letters (by decide) colon
  have found : findWord "://".toList (scheme ++ "://".toList ++ rest) = some scheme.length :=
    findWord_append_of_unbordered (by decide)
      (show ∀ k < "://".toList.length, 0 < k → ¬ "://".toList.drop k <+: "://".toList by decide)
      absent _
  have marker : scheme.length + 3 = (scheme ++ "://".toList).length := by
    rw [List.length_append]
    rfl
  rw [withoutScheme, found]
  dsimp only
  rw [marker, List.drop_left]

/-- Without a slash there is no `://`. -/
theorem findWord_of_notMem {text : Text} (slash : '/' ∉ text) :
    findWord "://".toList text = none := by
  rw [findWord_eq_none_iff (by decide)]
  intro inside
  exact slash (inside.subset (by decide))

theorem withoutScheme_of_notMem {text : Text} (slash : '/' ∉ text) (colon : ':' ∉ text) :
    withoutScheme text = text := by
  have noColon : splitOnce ':' text = none := if_neg colon
  simp only [withoutScheme, findWord_of_notMem slash, noColon]

/-- A scheme ends at the first colon. -/
theorem withoutScheme_of_split {text head rest : Text} (slash : '/' ∉ text)
    (split : splitOnce ':' text = some (head, rest)) :
    withoutScheme text =
      if ¬ head.isEmpty ∧ '.' ∉ head ∧ head.all Char.isAlpha then rest else text := by
  simp only [withoutScheme, findWord_of_notMem slash, split]

theorem slash_notMem_hostPort {host : Host} {port : Text}
    (digits : port.all Char.isDigit = true) : '/' ∉ host.text ++ ':' :: port := by
  rw [List.mem_append, List.mem_cons]
  rintro (front | colon | back)
  · exact host.slash_notMem front
  · cases colon
  · exact notMem_of_digits digits (by decide) back

theorem beforeLast_hostPort {host : Host} {port : Text} (digits : port.all Char.isDigit = true) :
    beforeLast ':' (beforeFirst '/' (host.text ++ ':' :: port)) = host.text := by
  rw [beforeFirst_eq_self (slash_notMem_hostPort digits),
    beforeLast_append _ (notMem_of_digits digits (by decide))]

/-- A letter of the suffix that is in a text in some case. -/
theorem dot_mem_of_suffix {suffix : Text} (same : eqIgnoreAsciiCase suffix irohSuffix = true) :
    '.' ∈ suffix := by
  have lower : '.' ∈ asciiLower suffix := by
    rw [eqIgnoreAsciiCase_iff.mp same]
    decide
  rcases List.mem_map.mp lower with ⟨c, member, dot⟩
  obtain rfl := eq_of_toLower (by decide) dot
  exact member

/-- The host of an address, unless the host was taken for a scheme: then neither
that host nor what is left has a dot. -/
theorem AddressForm.hostOf_eq_or {host : Host} {text : Text} (form : AddressForm host text) :
    hostOf text = host.text ∨ ('.' ∉ hostOf text ∧ '.' ∉ host.text) := by
  rw [hostOf]
  cases form with
  | host =>
      left
      rw [withoutScheme_of_notMem host.slash_notMem host.colon_notMem,
        beforeFirst_eq_self host.slash_notMem, beforeLast_eq_self host.colon_notMem]
  | hostPort digits =>
      rw [withoutScheme_of_split (slash_notMem_hostPort digits)
        (splitOnce_append host.colon_notMem _)]
      split
      · rename_i scheme
        right
        constructor
        · rw [beforeFirst_eq_self (notMem_of_digits digits (by decide)),
            beforeLast_eq_self (notMem_of_digits digits (by decide))]
          exact notMem_of_digits digits (by decide)
        · exact scheme.2.1
      · left
        exact beforeLast_hostPort digits
  | @schemeHostPort scheme port nonempty letters digits dotted =>
      left
      have slash : '/' ∉ scheme ++ ':' :: (host.text ++ ':' :: port) := by
        rw [List.mem_append, List.mem_cons]
        rintro (front | colon | back)
        · exact notMem_of_letters letters (by decide) front
        · cases colon
        · exact slash_notMem_hostPort digits back
      rw [withoutScheme_of_split slash
        (splitOnce_append (notMem_of_letters letters (by decide)) _),
        if_pos ⟨by simpa using nonempty, notMem_of_letters letters (by decide), letters⟩]
      exact beforeLast_hostPort digits
  | url letters =>
      left
      rw [withoutScheme_url letters, beforeFirst_eq_self host.slash_notMem,
        beforeLast_eq_self host.colon_notMem]
  | urlPort letters digits =>
      left
      rw [withoutScheme_url letters]
      exact beforeLast_hostPort digits
  | urlPath letters digits path =>
      left
      rw [List.append_assoc, withoutScheme_url letters,
        beforeFirst_append (slash_notMem_hostPort digits) (by simp),
        beforeLast_append _ (notMem_of_digits digits (by decide))]

/-! ## The answer -/

/-- An address names what stands in front of the suffix of its host, if anything
does. -/
theorem parseAddress_eq_some_iff {address id : Text} :
    Peer.parseAddress address = some id ↔ id ≠ [] ∧ ∃ suffix,
      hostOf (trim address) = id ++ suffix ∧ eqIgnoreAsciiCase suffix irohSuffix = true := by
  rw [Peer.parseAddress, ← hostOf]
  generalize hostOf (trim address) = value
  dsimp only
  constructor
  · intro read
    split at read
    · rename_i lower
      split at read
      · cases read
      · rename_i nonempty
        cases read
        refine ⟨by simpa using nonempty, value.drop (value.length - irohSuffix.length),
          (List.take_append_drop _ _).symm, ?_⟩
        rw [eqIgnoreAsciiCase_iff, asciiLower, List.map_drop]
        have last := List.suffix_iff_eq_drop.mp lower
        rw [asciiLower, List.length_map] at last
        rw [← last]
        decide
    · cases read
  · rintro ⟨nonempty, suffix, rfl, same⟩
    have lowered := eqIgnoreAsciiCase_iff.mp same
    have length : suffix.length = irohSuffix.length := by
      have lengths := congrArg List.length lowered
      rwa [asciiLower, asciiLower, List.length_map, List.length_map] at lengths
    have lower : irohSuffix <:+ asciiLower (id ++ suffix) := by
      rw [asciiLower, List.map_append]
      exact ⟨_, congrArg _ lowered.symm⟩
    rw [if_pos lower, List.length_append, length, Nat.add_sub_cancel, List.take_left,
      if_neg (by simpa using nonempty)]

/-- What the host of an address decides, every form of it decides. -/
theorem parseAddress_form {host : Host} {text before after : Text}
    (form : AddressForm host text) (blankBefore : Blank before) (blankAfter : Blank after)
    (id : Text) :
    Peer.parseAddress (before ++ text ++ after) = some id ↔ id ≠ [] ∧ ∃ suffix,
      host.text = id ++ suffix ∧ eqIgnoreAsciiCase suffix irohSuffix = true := by
  rcases form.exists_trim blankBefore blankAfter with ⟨trimmed, kept, trims⟩
  rw [parseAddress_eq_some_iff, trims]
  rcases kept.hostOf_eq_or with same | ⟨noDot, noHostDot⟩
  · rw [same]
  · constructor
    · rintro ⟨-, suffix, shape, same⟩
      exact absurd (shape ▸ List.mem_append_right id (dot_mem_of_suffix same)) noDot
    · rintro ⟨-, suffix, shape, same⟩
      exact absurd (shape ▸ List.mem_append_right id (dot_mem_of_suffix same)) noHostDot

/-- A printed id with the suffix after it. -/
def Key.host {isKey : Bytes → Bool} (key : Key isKey) : Host where
  text := key.toZ32 ++ irohSuffix
  colon_notMem member := by
    rcases List.mem_append.mp member with front | back
    · exact absurd (key.mem_letters_of_mem_toZ32 _ front) (by decide)
    · exact absurd back (by decide)
  slash_notMem member := by
    rcases List.mem_append.mp member with front | back
    · exact absurd (key.mem_letters_of_mem_toZ32 _ front) (by decide)
    · exact absurd back (by decide)
  solid := Printed.z32.solid.append (by decide)

/-- The address of a peer is read back as its id. -/
theorem parseAddress_of_new {isKey : Bytes → Bool} {Url : Type} {isStrict : Bool}
    {parseUrl : Text → Option Url} {scheme urlText : Url → Text}
    {endpointId relay token : Text} {peer : Peer}
    (made : Peer.new (keyIroh isKey isStrict parseUrl scheme urlText) endpointId relay token =
      .ok peer) : Peer.parseAddress peer.address = some peer.endpointId := by
  rcases Peer.new_eq_ok_iff.mp made with ⟨key, -, rfl⟩
  have letters : ("quack".toList).all Char.isAlpha = true := by decide
  have digits : quackPort.all Char.isDigit = true := by decide
  have dotted : '.' ∈ key.host.text := List.mem_append_right _ (by decide)
  have form := AddressForm.schemeHostPort (by decide) letters digits dotted
  have blank : Blank [] := by decide
  have address : Peer.address ⟨key.toZ32, trim relay, token⟩ =
      [] ++ ("quack".toList ++ ':' :: (key.host.text ++ ':' :: quackPort)) ++ [] := by
    have marker : "quack:".toList = "quack".toList ++ [':'] := by decide
    rw [List.nil_append, List.append_nil]
    calc Peer.address ⟨key.toZ32, trim relay, token⟩
        = "quack:".toList ++ key.toZ32 ++ irohSuffix ++ ':' :: quackPort := rfl
      _ = "quack".toList ++ [':'] ++ key.toZ32 ++ irohSuffix ++ ':' :: quackPort := by rw [marker]
      _ = "quack".toList ++ ':' :: (key.host.text ++ ':' :: quackPort) := by
        rw [Key.host]
        simp only [List.append_assoc, List.cons_append, List.nil_append]
  rw [show (keyIroh isKey isStrict parseUrl scheme urlText).toZ32 key = key.toZ32 from rfl,
    address, parseAddress_form form blank blank]
  have filled := (lawful_keyIroh isStrict parseUrl scheme urlText).toZ32_ne_nil key
  exact ⟨filled, irohSuffix, rfl, by decide⟩

/-- Every form of an address is read as the part of its host before the suffix,
and the address of a peer is read as that peer's id. -/
theorem address_grammar {Url : Type} (isKey : Bytes → Bool) (isStrict : Bool)
    (parseUrl : Text → Option Url) (scheme urlText : Url → Text) :
    (∀ (host : Host) (text before after : Text), AddressForm host text → Blank before →
        Blank after → ∀ id, Peer.parseAddress (before ++ text ++ after) = some id ↔
          id ≠ [] ∧ ∃ suffix,
            host.text = id ++ suffix ∧ eqIgnoreAsciiCase suffix irohSuffix = true) ∧
      ∀ (endpointId relay token : Text) (peer : Peer),
        Peer.new (keyIroh isKey isStrict parseUrl scheme urlText) endpointId relay token =
          .ok peer → Peer.parseAddress peer.address = some peer.endpointId := by
  constructor
  · intro host text before after form blankBefore blankAfter id
    exact parseAddress_form form blankBefore blankAfter id
  · intro endpointId relay token peer made
    exact parseAddress_of_new made


/-- A mixed-case host with a scheme and a path that looks like another address,
and a key made of zeros. -/
theorem address_grammar_zero :
    (∀ id, Peer.parseAddress
        (" ".toList ++ ("https".toList ++ "://".toList ++ ("AbC.IROH".toList ++
          ':' :: "9494".toList) ++ '/' :: "x://y.iroh:1".toList) ++ "\n".toList) = some id ↔
      id ≠ [] ∧ ∃ suffix,
        "AbC.IROH".toList = id ++ suffix ∧ eqIgnoreAsciiCase suffix irohSuffix = true) ∧
      Peer.parseAddress (Peer.address ⟨List.replicate 52 'y', [], []⟩) =
        some (List.replicate 52 'y') := by
  have grammar := @address_grammar Unit (fun _ => true) true (fun _ => none)
    (fun _ => []) (fun _ => [])
  have zero : Peer.new (@keyIroh Unit (fun _ => true) true (fun _ => none) (fun _ => [])
      (fun _ => [])) (List.replicate 52 'y') [] [] = .ok ⟨List.replicate 52 'y', [], []⟩ := by
    decide +kernel
  constructor
  · exact grammar.1 ⟨"AbC.IROH".toList, by decide, by decide, by decide⟩ _ _ _
      (.urlPath (by decide) (by decide) _) (by decide) (by decide)
  · exact grammar.2 _ _ _ _ zero

end Quackhole.Ticket
