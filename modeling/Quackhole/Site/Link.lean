import Quackhole.Extension.Issue
import Quackhole.Ticket.Usable
import Quackhole.Word.Percent

/-!
# The link

`quackhole_serve` puts a ticket behind the address of the workbench, after a number sign.  A
browser that opens the link makes a URL of it, and the page takes what comes after the first
number sign of that for the ticket.
-/

namespace Quackhole.Site.Link

open Quackhole.Word Quackhole.Ticket Quackhole.Extension Quackhole.Transition

/-! ## What the page reads -/

/-- A control character or a space, which the URL parser takes off both ends. -/
def isControlOrSpace (c : Char) : Bool :=
  decide (c.toNat ≤ 0x20)

/-- What the URL parser drops wherever it stands. -/
def isTabOrNewline (c : Char) : Bool :=
  c == '\t' || c == '\n' || c == '\r'

/-- The characters that are escaped in a fragment. -/
def inFragmentSet (c : Char) : Bool :=
  decide (c.toNat ≤ 0x20) || decide (0x7E < c.toNat) || c == '"' || c == '<' || c == '>' ||
    c == Char.ofNat 0x60

/-- What the URL parser goes over. -/
def cleaned (href : Text) : Text :=
  ((href.dropWhile isControlOrSpace).rdropWhile isControlOrSpace).filter (!isTabOrNewline ·)

/-- `location.hash` of a page that was opened at an address. -/
def locationHash (href : Text) : Text :=
  match splitOnce '#' (cleaned href) with
  | none => []
  | some (_, fragment) =>
      match Percent.encode inFragmentSet fragment with
      | [] => []
      | encoded => '#' :: encoded

/-- The fragment, read as it stands where its escapes are damaged. -/
def fragment (hash : Text) : Text :=
  (Percent.decodeURIComponent (hash.drop 1)).getD (hash.drop 1)

/-- What the page makes of a ticket in its address, if there is one. -/
def offered {Id Url Address : Type} (host : Host Id Url Address) (href : Text) :
    Option (Except String Peer) :=
  let fragment := fragment (locationHash href)
  if "qh1_".toList.isPrefixOf fragment then
    some (Peer.parseTicket host.iroh host.codec fragment)
  else none

/-- The link for a ticket, on a base that is not empty. -/
def link (base ticket : Text) : Text :=
  base ++ (if base.getLast? = some '#' then [] else ['#']) ++ ticket

/-! ## What is behind the number sign -/

/-- What is in front of the number sign of a link. -/
def front (base : Text) : Text :=
  if base.getLast? = some '#' then base.dropLast else base

theorem link_eq (base ticket : Text) : link base ticket = front base ++ '#' :: ticket := by
  unfold link front
  split
  · rename_i ends
    rcases List.getLast?_eq_some_iff.mp ends with ⟨before, rfl⟩
    simp
  · simp

theorem mem_front_iff (base : Text) : '#' ∈ front base ↔ '#' ∈ base.dropLast := by
  unfold front
  split
  · rfl
  · rename_i other
    rcases List.eq_nil_or_concat base with rfl | ⟨before, last, rfl⟩
    · rfl
    · rw [List.concat_eq_append] at other ⊢
      rw [List.getLast?_concat] at other
      rw [List.dropLast_concat, List.mem_append, List.mem_singleton]
      exact or_iff_left fun same => other (congrArg some same.symm)

theorem mem_dropWhile {c : Char} {p : Char → Bool} (stays : p c = false) (text : Text) :
    c ∈ text.dropWhile p ↔ c ∈ text := by
  induction text with
  | nil => rfl
  | cons d text ih =>
      rw [List.dropWhile_cons]
      split
      · rename_i drops
        rw [ih, List.mem_cons]
        refine (or_iff_right fun same => ?_).symm
        rw [← same, stays] at drops
        cases drops
      · rfl

theorem bounds_of_isUrlSafe {c : Char} (safe : Base64.IsUrlSafe c) :
    0x2D ≤ c.toNat ∧ c.toNat ≤ 0x7A := by
  rcases safe with alphanumeric | rfl | rfl
  · delta Char.isAlphanum Char.isAlpha Char.isUpper Char.isLower Char.isDigit at alphanumeric
    simp [UInt32.le_iff_toNat_le] at alphanumeric
    omega
  · decide
  · decide

theorem ne_of_isUrlSafe {c d : Char} (safe : Base64.IsUrlSafe c)
    (other : ¬ Base64.IsUrlSafe d) : c ≠ d := by
  rintro rfl
  exact other safe

/-- A character of a ticket is neither dropped nor escaped. -/
theorem kept_of_isUrlSafe {c : Char} (safe : Base64.IsUrlSafe c) :
    isControlOrSpace c = false ∧ isTabOrNewline c = false ∧ inFragmentSet c = false := by
  have bounds := bounds_of_isUrlSafe safe
  have control : ¬ c.toNat ≤ 0x20 := by omega
  have high : ¬ 0x7E < c.toNat := by omega
  have ne {d : Char} (other : ¬ Base64.IsUrlSafe d) : (c == d) = false :=
    beq_eq_false_iff_ne.mpr (ne_of_isUrlSafe safe other)
  refine ⟨decide_eq_false control, ?_, ?_⟩
  · rw [isTabOrNewline, ne (by decide), ne (by decide), ne (by decide)]
    rfl
  · rw [inFragmentSet, decide_eq_false control, decide_eq_false high, ne (by decide),
      ne (by decide), ne (by decide), ne (by decide)]
    rfl

/-- A ticket is left as it is, and so are the number signs in front of it. -/
theorem cleaned_append {before ticket : Text} (safe : ∀ c ∈ ticket, Base64.IsUrlSafe c)
    (nonempty : ticket ≠ []) :
    ∃ rest, cleaned (before ++ '#' :: ticket) = rest ++ '#' :: ticket ∧
      ('#' ∈ rest ↔ '#' ∈ before) := by
  have dropped : (before ++ '#' :: ticket).dropWhile isControlOrSpace =
      before.dropWhile isControlOrSpace ++ '#' :: ticket := by
    rw [List.dropWhile_append]
    split
    · rename_i blank
      rw [List.isEmpty_iff.mp blank, List.nil_append]
      rfl
    · rfl
  have whole (rest : Text) : (rest ++ '#' :: ticket).rdropWhile isControlOrSpace =
      rest ++ '#' :: ticket := by
    apply List.rdropWhile_eq_self_iff.mpr
    intro some
    have last : (rest ++ '#' :: ticket).getLast some = ticket.getLast nonempty := by
      rw [List.getLast_append_of_right_ne_nil _ _ (List.cons_ne_nil _ _),
        List.getLast_cons nonempty]
    rw [last, (kept_of_isUrlSafe (safe _ (List.getLast_mem nonempty))).1]
    exact Bool.false_ne_true
  have filtered : ticket.filter (!isTabOrNewline ·) = ticket := by
    apply List.filter_eq_self.mpr
    intro c member
    rw [(kept_of_isUrlSafe (safe c member)).2.1]
    rfl
  refine ⟨(before.dropWhile isControlOrSpace).filter (!isTabOrNewline ·), ?_, ?_⟩
  · rw [cleaned, dropped, whole, List.filter_append, List.filter_cons, filtered]
    rfl
  · rw [List.mem_filter, mem_dropWhile (by decide)]
    exact and_iff_left (by decide)

theorem encode_ticket {ticket : Text} (safe : ∀ c ∈ ticket, Base64.IsUrlSafe c) :
    Percent.encode inFragmentSet ticket = ticket :=
  Percent.encode_eq_self fun c member => (kept_of_isUrlSafe (safe c member)).2.2

theorem locationHash_eq {href before behind : Text} (absent : '#' ∉ before)
    (clean : cleaned href = before ++ '#' :: behind)
    (some : Percent.encode inFragmentSet behind ≠ []) :
    locationHash href = '#' :: Percent.encode inFragmentSet behind := by
  rw [locationHash, clean, splitOnce_append absent]
  dsimp only
  split
  · contradiction
  · rfl

/-- A number sign in the fragment stays there. -/
theorem mem_fragment {text : Text} (member : '#' ∈ text) :
    '#' ∈ fragment ('#' :: Percent.encode inFragmentSet text) := by
  have encoded : '#' ∈ Percent.encode inFragmentSet text :=
    List.mem_flatMap.mpr ⟨'#', member, List.mem_singleton.mpr rfl⟩
  rw [fragment, List.drop_one, List.tail_cons]
  cases read : Percent.decodeURIComponent (Percent.encode inFragmentSet text) with
  | none => exact encoded
  | some decoded =>
      exact Percent.mem_decodeURIComponent (by decide) (by decide) (by decide) read encoded

/-- The page finds the ticket of a link exactly where the base has no number sign but at its
end. -/
theorem fragment_link_iff {base ticket : Text} (safe : ∀ c ∈ ticket, Base64.IsUrlSafe c)
    (nonempty : ticket ≠ []) :
    fragment (locationHash (link base ticket)) = ticket ↔ '#' ∉ base.dropLast := by
  rcases @cleaned_append (front base) ticket safe nonempty with ⟨rest, clean, kept⟩
  have sign : '#' ∉ ticket := fun member => absurd (safe '#' member) (by decide)
  have percent : '%' ∉ ticket := fun member => absurd (safe '%' member) (by decide)
  rw [link_eq, ← mem_front_iff, ← kept]
  constructor
  · intro read member
    rcases List.eq_append_cons_of_mem member with ⟨before, behind, rfl, absent⟩
    rw [List.append_assoc, List.cons_append] at clean
    have inside : '#' ∈ behind ++ '#' :: ticket :=
      List.mem_append_right behind List.mem_cons_self
    have encoded : Percent.encode inFragmentSet (behind ++ '#' :: ticket) ≠ [] :=
      List.ne_nil_of_mem (List.mem_flatMap.mpr ⟨'#', inside, List.mem_singleton.mpr rfl⟩)
    rw [locationHash_eq absent clean encoded] at read
    exact sign (read ▸ mem_fragment inside)
  · intro absent
    rw [locationHash_eq absent clean (by rwa [encode_ticket safe]), fragment, List.drop_one,
      List.tail_cons, Percent.decodeURIComponent_encode fun member => absurd member percent]
    rfl

/-- A ticket: the marker, and characters that stand for themselves in a link. -/
def Plain (ticket : Text) : Prop :=
  ∃ payload, ticket = "qh1_".toList ++ payload ∧ ∀ c ∈ payload, Base64.IsUrlSafe c

theorem Plain.safe {ticket : Text} (plain : Plain ticket) : ∀ c ∈ ticket, Base64.IsUrlSafe c := by
  rcases plain with ⟨payload, rfl, safe⟩
  intro c member
  rcases List.mem_append.mp member with marked | carried
  · rw [show "qh1_".toList = ['q', 'h', '1', '_'] from rfl] at marked
    simp only [List.mem_cons, List.not_mem_nil, or_false] at marked
    rcases marked with rfl | rfl | rfl | rfl <;> decide
  · exact safe c carried

theorem Plain.ne_nil {ticket : Text} (plain : Plain ticket) : ticket ≠ [] := by
  rcases plain with ⟨payload, rfl, _⟩
  exact List.cons_ne_nil _ _

/-! ## The link of a call that serves -/

section Served

variable {Id Url Address : Type} {host : Host Id Url Address} {world : Surroundings Id}

theorem serving_of_serveStart {core : Option (Core Id)} {target : Text} {allow : List Text}
    {started : Core Id} (accepted : serveStart host core target allow = .ok started) :
    started.serving = true := by
  unfold serveStart at accepted
  split at accepted
  · cases accepted
  · split at accepted
    · cases accepted
    · rcases bind_eq_ok_iff.mp accepted with ⟨_, _, accepted⟩
      split at accepted
      · obtain rfl := Except.ok.inj accepted
        rfl
      · cases accepted

theorem core_of_startAccepting {target : Text} {allow : List Text} {core : Core Id}
    {db after : Database Id Address}
    (returned : startAccepting host target allow db = (.ok core, after)) :
    after.core = some core ∧ core.serving = true := by
  rw [startAccepting, Effect.bind_eq_ok] at returned
  rcases returned with ⟨_, _, _, returned⟩
  rw [Effect.bind_eq_ok] at returned
  rcases returned with ⟨started, _, lifted, returned⟩
  rw [Effect.bind_eq_ok] at returned
  rcases returned with ⟨_, _, stored, returned⟩
  rcases Effect.lift_eq_ok.mp lifted with ⟨accepted, rfl⟩
  obtain rfl := Effect.modify_eq_ok.mp stored
  rcases Effect.pure_eq_ok.mp returned with ⟨rfl, rfl⟩
  refine ⟨rfl, ?_⟩
  cases start : serveStart host _ target allow with
  | error err =>
      rw [start] at accepted
      cases accepted
  | ok core' =>
      rw [start] at accepted
      obtain rfl := Except.ok.inj accepted
      exact serving_of_serveStart start

/-- A call that returns leaves a core that is serving, and its row is about that core. -/
theorem core_of_serveEndpoint {arguments : ServeArguments} {quackToken : Text}
    {db after : Database Id Address} {row : ServeRow}
    (returned : serveEndpoint host world arguments quackToken db = (.ok row, after)) :
    ∃ core, after.core = some core ∧ core.serving = true ∧
      row = serveRow host world (untilNul (host.iroh.toZ32 core.endpointId))
        (effectiveToken arguments quackToken) := by
  rw [serveEndpoint, Effect.bind_eq_ok] at returned
  rcases returned with ⟨_, _, _, returned⟩
  rw [Effect.bind_eq_ok] at returned
  rcases returned with ⟨_, _, _, returned⟩
  rw [Effect.bind_eq_ok] at returned
  rcases returned with ⟨_, _, _, returned⟩
  rw [Effect.bind_eq_ok] at returned
  rcases returned with ⟨core, listening, accepting, returned⟩
  rw [Effect.bind_eq_ok] at returned
  rcases returned with ⟨id, _, printed, returned⟩
  rcases Effect.lift_eq_ok.mp printed with ⟨written, rfl⟩
  rcases Effect.pure_eq_ok.mp returned with ⟨rfl, rfl⟩
  rcases core_of_startAccepting accepting with ⟨held, serving⟩
  refine ⟨core, held, serving, ?_⟩
  rw [endpointId] at written
  cases fits : writeStrOrErr endpointIdLen (host.iroh.toZ32 core.endpointId) with
  | error err =>
      rw [fits] at written
      cases written
  | ok text =>
      rw [fits] at written
      rw [← writeStrOrErr_eq_ok fits, ← Except.ok.inj written]

/-- A ticket that was minted for a bound endpoint is read as the peer it is for. -/
theorem parseTicket_minted (lawful : host.Lawful)
    (exact : ∀ id, host.iroh.parseEndpointId (host.iroh.toZ32 id) = .ok id) {id : Id}
    {relay token ticket : Text} {outLen : Nat}
    (minted : qhTicketMint host.iroh host.codec (host.iroh.toZ32 id) relay token outLen =
      .ok ticket) :
    Plain ticket ∧
      Peer.parseTicket host.iroh host.codec ticket =
        .ok ⟨host.iroh.toZ32 id, trim (untilNul relay), untilNul token⟩ := by
  rcases (qhTicketMint_eq_ok_iff lawful.codec).mp minted with ⟨peer, made, mint, -⟩
  rw [untilNul_eq_self (lawful.iroh.nul_notMem_toZ32 id)] at made
  have relayed : ¬ Blank (untilNul relay) := fun blank => toTicket_ne_ok_of_blank blank made mint
  rcases exists_toTicket lawful.codec exact lawful.iroh.toZ32_ne_nil made relayed with
    ⟨payload, again, safe, read⟩
  obtain rfl := Except.ok.inj (mint.symm.trans again)
  refine ⟨⟨payload, rfl, safe⟩, ?_⟩
  have alone := read [] [] (by decide) (by simp)
  rw [List.nil_append, List.append_nil] at alone
  rw [alone]
  rcases Peer.new_eq_ok_iff.mp made with ⟨parsed, accepted, rfl⟩
  rw [exact] at accepted
  rw [Except.ok.inj accepted]

/-- The address the link is built on. -/
def workbench (world : Surroundings Id) : Text :=
  world.settings.workbenchUrl.getD defaultWorkbenchUrl

theorem nonempty_eq_some_iff {text shown : Text} :
    nonempty text = some shown ↔ text = shown ∧ text ≠ [] := by
  unfold nonempty
  split
  · rename_i empty
    rw [List.isEmpty_iff.mp empty]
    simp
  · rename_i some
    rw [Option.some.injEq]
    exact (and_iff_left (mt List.isEmpty_iff.mpr some)).symm

/-- The link of a row is there where a ticket is, and the ticket is behind it. -/
theorem exists_link {endpointId token url : Text}
    (linked : (serveRow host world endpointId token).url = some url) :
    ∃ ticket, (serveRow host world endpointId token).ticket = some ticket ∧
      url = link (workbench world) ticket := by
  rcases nonempty_eq_some_iff.mp linked with ⟨same, present⟩
  refine ⟨(qhTicketMint host.iroh host.codec endpointId (relayUrlWait world) token
    ticketLen).toOption.getD [], ?_, ?_⟩
  · apply nonempty_eq_some_iff.mpr
    refine ⟨rfl, fun empty => present ?_⟩
    rw [empty]
    rfl
  · rw [← same]
    unfold workbenchLink at present ⊢
    dsimp only at present ⊢
    split
    · rename_i nothing
      exact absurd (if_pos nothing) present
    · rfl

/-- A page that finds a ticket offers what it is read as. -/
theorem offered_link {base ticket : Text} (plain : Plain ticket) (sole : '#' ∉ base.dropLast) :
    offered host (link base ticket) = some (Peer.parseTicket host.iroh host.codec ticket) := by
  have found := (fragment_link_iff plain.safe plain.ne_nil).mpr sole
  rcases plain with ⟨payload, rfl, _⟩
  have marked : "qh1_".toList.isPrefixOf ("qh1_".toList ++ payload) = true :=
    List.isPrefixOf_iff_prefix.mpr (List.prefix_append _ _)
  rw [offered, found, if_pos marked]

/-- What is known of a call that returns a link. -/
theorem ticket_of_serveEndpoint (lawful : host.Lawful)
    (exact : ∀ id, host.iroh.parseEndpointId (host.iroh.toZ32 id) = .ok id)
    {arguments : ServeArguments} {quackToken : Text} {db after : Database Id Address}
    {row : ServeRow} {url : Text}
    (served : serveEndpoint host world arguments quackToken db = (.ok row, after))
    (linked : row.url = some url) :
    ∃ core ticket, after.core = some core ∧ core.serving = true ∧ row.ticket = some ticket ∧
      row.token = nonempty (effectiveToken arguments quackToken) ∧ Plain ticket ∧
      url = link (workbench world) ticket ∧
      Peer.parseTicket host.iroh host.codec ticket =
        .ok ⟨host.iroh.toZ32 core.endpointId, trim (untilNul (relayUrlWait world)),
          untilNul (effectiveToken arguments quackToken)⟩ := by
  rcases core_of_serveEndpoint served with ⟨core, held, serving, rfl⟩
  rcases exists_link linked with ⟨ticket, shown, rfl⟩
  have minted := ticket_serveRow shown
  rw [untilNul_eq_self (lawful.iroh.nul_notMem_toZ32 core.endpointId)] at minted
  rcases parseTicket_minted lawful exact minted with ⟨plain, read⟩
  exact ⟨core, ticket, held, serving, shown, rfl, plain, rfl, read⟩

/-- The page that is opened at the link of a call finds the ticket there exactly where the
workbench has no number sign but at its end; and then it offers the endpoint that
is serving, with its relay and its token. -/
theorem offered_of_served [DecidableEq Address] (lawful : host.Lawful)
    (exact : ∀ id, host.iroh.parseEndpointId (host.iroh.toZ32 id) = .ok id)
    {arguments : ServeArguments} {db after : Database Id Address} {row : ServeRow} {url : Text}
    (served : quackholeServe host world arguments db = (.ok row, after))
    (linked : row.url = some url) :
    ∃ core ticket token, after.core = some core ∧ core.serving = true ∧
      row.ticket = some ticket ∧ row.token = nonempty token ∧
      (fragment (locationHash url) = ticket ↔ '#' ∉ (workbench world).dropLast) ∧
      ('#' ∉ (workbench world).dropLast → offered host url =
        some (.ok ⟨host.iroh.toZ32 core.endpointId, trim (untilNul (relayUrlWait world)),
          untilNul token⟩)) := by
  rw [quackholeServe, Effect.bind_eq_ok] at served
  rcases served with ⟨quackToken, middle, _, served⟩
  rcases ticket_of_serveEndpoint lawful exact served linked with
    ⟨core, ticket, held, serving, shown, named, plain, rfl, read⟩
  refine ⟨core, ticket, _, held, serving, shown, named,
    fragment_link_iff plain.safe plain.ne_nil, fun sole => ?_⟩
  rw [offered_link plain sole, read]

end Served

/-! ## A link to the default workbench -/

/-- A token is given. -/
def soleArguments : ServeArguments where
  token := "tok".toList

theorem parseEndpointId_soleId (id : Unit) :
    soleHost.iroh.parseEndpointId (soleHost.iroh.toZ32 id) = .ok id := by
  have read : (soleHost.iroh.parseEndpointId soleId).isOk = true := by decide +kernel
  cases parsed : soleHost.iroh.parseEndpointId soleId with
  | ok id' => exact parsed
  | error message =>
      rw [parsed] at read
      cases read

theorem linked_sole :
    ((quackholeServe soleHost soleWorld soleArguments {}).1.toOption.bind (·.url)).isSome =
      true := by
  decide +kernel

theorem offered_of_served_sole :
    ∃ row after url, quackholeServe soleHost soleWorld soleArguments {} = (.ok row, after) ∧
      row.url = some url ∧ ∃ core ticket token, after.core = some core ∧ core.serving = true ∧
        row.ticket = some ticket ∧ row.token = nonempty token ∧
        (fragment (locationHash url) = ticket ↔ '#' ∉ (workbench soleWorld).dropLast) ∧
        ('#' ∉ (workbench soleWorld).dropLast → offered soleHost url =
          some (.ok ⟨soleHost.iroh.toZ32 core.endpointId, trim (untilNul (relayUrlWait soleWorld)),
            untilNul token⟩)) := by
  rcases Option.isSome_iff_exists.mp linked_sole with ⟨url, linked⟩
  rcases Option.bind_eq_some_iff.mp linked with ⟨row, returned, linked⟩
  rcases served : quackholeServe soleHost soleWorld soleArguments {} with ⟨result, after⟩
  rw [served] at returned
  cases result with
  | error thrown => cases returned
  | ok row' =>
      obtain rfl := Option.some.inj returned
      exact ⟨_, after, url, rfl, linked,
        offered_of_served lawful_soleHost parseEndpointId_soleId served linked⟩

end Quackhole.Site.Link
