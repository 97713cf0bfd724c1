import Moniker.Proofs.Order
import Moniker.Proofs.Registry

/-! # Sessions with a registry

A session asks one registry for keywords and symbols and compares what it was given. Two sessions
that ask the same of registries with different layouts are told the same, apart from the
instances themselves. -/

namespace Moniker

theorem forall₂_getElem? {α β : Type} {R : α → β → Prop} {l : List α} {l' : List β}
    (h : List.Forall₂ R l l') (i : Nat) : Option.Rel R l[i]? l'[i]? := by
  induction h generalizing i with
  | nil => exact .none
  | cons hab hrest ih =>
      cases i with
      | zero => exact .some hab
      | succ i => simpa using ih i

theorem rel_cases {α β : Type} {R : α → β → Prop} {a : Option α} {b : Option β}
    (h : Option.Rel R a b) :
    (a = none ∧ b = none) ∨ ∃ x y, a = some x ∧ b = some y ∧ R x y := by
  cases h with
  | none => exact .inl ⟨rfl, rfl⟩
  | some hxy => exact .inr ⟨_, _, rfl, rfl, hxy⟩

/-! ## Results and replies -/

/-- What comparing two results of one kind tells: `==`, identity and order. -/
structure Comparison where
  equal : Bool
  identical : Bool
  order : Ordering
  deriving DecidableEq, Repr

/-- Only results of one kind can be compared. -/
def Identifier.compare? (address : KeywordId → Nat) : Identifier → Identifier → Option Comparison
  | .keyword a, .keyword b => some ⟨a == b, a == b, a.compareBy address b⟩
  | .symbol a, .symbol b => some ⟨a == b, a.sharesCore b, compare a b⟩
  | _, _ => none

inductive Reply where
  | identifier (i : Identifier)
  | fault (f : NameFault)
  | comparison (c : Comparison)
  | code (code : Int32)
  | nothing

namespace Reply

def ofKeyword : Except NameFault Keyword → Reply
  | .error f => .fault f
  | .ok k => .identifier (.keyword k)

def identifier? : Reply → Option Identifier
  | .identifier i => some i
  | _ => none

/-- The same is told: the same reply, or identifiers of one kind, name and hash code. -/
inductive Agrees : Reply → Reply → Prop where
  | same (r : Reply) : Agrees r r
  | identifier {i j : Identifier} : i.kind = j.kind → i.name = j.name → i.code = j.code →
      Agrees (.identifier i) (.identifier j)

end Reply

/-! ## Sessions -/

/-- A registry, the numbers for new symbols, where keywords lie in memory, and the replies so
far. -/
structure Session where
  registry : Registry
  supply : Supply
  address : KeywordId → Nat
  replies : List Reply

namespace Session

/-- What is asked for next. Earlier replies are named by their places, and the metadata of a new
symbol may be made of them. -/
inductive Request where
  | keyword (ns : Option String) (localName : String)
  | parseKeyword (literal : String)
  | intern (q : Name)
  | keywordOfSymbol (place : Nat)
  | toSymbol (place : Nat)
  | symbol (ns : Option String) (localName : String) (attach : List Reply → Option Metadata)
  | compare (place other : Nat)
  | code (place : Nat)
  | find (ns : Option String) (localName : String)

/-- Whether a keyword is asked for that may have been installed in advance. -/
def Request.looksUp : Request → Bool
  | find .. => true
  | _ => false

def start (registry : Registry) (supply : Supply) (address : KeywordId → Nat) : Session where
  registry
  supply
  address
  replies := []

def table (s : Session) : KeywordTable :=
  s.registry.table

def reply (s : Session) (r : Reply) : Session :=
  { s with replies := s.replies ++ [r] }

/-- The result that the reply at a place gave. -/
def result? (s : Session) (place : Nat) : Option Identifier :=
  s.replies[place]?.bind Reply.identifier?

def compared (s : Session) (place other : Nat) : Option Comparison := do
  (← s.result? place).compare? s.address (← s.result? other)

/-- The session after an answer of the registry that may have changed it. -/
def interned (s : Session) (answer : Except NameFault Keyword × Registry) : Session :=
  { s with registry := answer.2 }.reply (.ofKeyword answer.1)

/-- The session after a symbol was made, or could not be. -/
def made (s : Session) : Except NameFault (StateM Supply Symbol) → Session
  | .error f => s.reply (.fault f)
  | .ok make =>
    let (a, supply) := make.run s.supply
    { s with supply }.reply (.identifier (.symbol a))

/-- The session after one more request. A place that holds no result of the right kind gets the
reply that there is nothing. -/
def perform (s : Session) : Request → Session
  | .keyword ns localName => s.interned (s.registry.keyword ns localName)
  | .parseKeyword literal => s.interned (s.registry.parseKeyword literal)
  | .intern q => s.interned ((s.registry.intern q).map .ok id)
  | .keywordOfSymbol place =>
    match s.result? place with
    | some (.symbol a) => s.interned ((s.registry.keywordOfSymbol a).map .ok id)
    | _ => s.reply .nothing
  | .toSymbol place =>
    match s.result? place with
    | some (.keyword k) => s.made (.ok k.toSymbol)
    | _ => s.reply .nothing
  | .symbol ns localName attach => s.made (s.registry.symbol ns localName (attach s.replies))
  | .compare place other => s.reply ((s.compared place other).elim .nothing .comparison)
  | .code place => s.reply ((s.result? place).elim .nothing fun i => .code i.code)
  | .find ns localName =>
    s.reply ((s.registry.findKeyword ns localName).elim .nothing fun k =>
      .identifier (.keyword k))

def run (s : Session) (requests : List Request) : Session :=
  requests.foldl perform s

end Session

/-! ## Results that correspond -/

/-- Results of two sessions that only their instances tell apart. Keywords are bound to one name
by the two tables; cores have one name and hash code, and numbers as far apart as the first
numbers of the two sessions. -/
inductive Identifier.Matches (t t' : KeywordTable) (first first' : Nat) :
    Identifier → Identifier → Prop where
  | keyword {q k k'} : t.find? q = some k → t'.find? q = some k' →
      Matches t t' first first' (.keyword k) (.keyword k')
  | symbol {a a' : Symbol} : a.name = a'.name → a.code = a'.code →
      a.core.number + first' = a'.core.number + first →
      Matches t t' first first' (.symbol a) (.symbol a')

namespace Identifier

variable {t t' u u' : KeywordTable} {first first' : Nat}

/-- Later tables still bind the keywords. -/
theorem Matches.mono {i i' : Identifier} (h : i.Matches t t' first first' i')
    (hu : t.Extends u) (hu' : t'.Extends u') : i.Matches u u' first first' i' := by
  cases h with
  | keyword hk hk' => exact .keyword (hu.find? hk) (hu'.find? hk')
  | symbol hname hcode hnumber => exact .symbol hname hcode hnumber

theorem Matches.kind_eq {i i' : Identifier} (h : i.Matches t t' first first' i') :
    i.kind = i'.kind := by
  cases h <;> rfl

theorem Matches.name_eq {i i' : Identifier} (h : i.Matches t t' first first' i') :
    i.name = i'.name := by
  cases h with
  | keyword hk hk' =>
      exact (KeywordTable.name_of_find? hk).trans (KeywordTable.name_of_find? hk').symm
  | symbol hname hcode hnumber => exact hname

theorem Matches.code_eq {i i' : Identifier} (h : i.Matches t t' first first' i') (ht : t.Sound)
    (ht' : t'.Sound) : i.code = i'.code := by
  have hname := h.name_eq
  cases h with
  | keyword hk hk' =>
      have hcode := ht.codes _ (KeywordTable.mem_of_find? hk)
      have hcode' := ht'.codes _ (KeywordTable.mem_of_find? hk')
      exact hcode.trans ((congrArg (Hash.qualified .keyword) hname).trans hcode'.symm)
  | symbol hname hcode hnumber => exact hcode

/-- In a table keywords compare as their names do. -/
theorem compare?_keyword (ht : t.Sound) (address : KeywordId → Nat) {p q : Name} {k l : Keyword}
    (hk : t.find? p = some k) (hl : t.find? q = some l) :
    compare? address (.keyword k) (.keyword l) =
      some ⟨decide (p = q), decide (p = q), compare p q⟩ := by
  have hbeq : (k == l) = decide (p = q) := by
    rw [Bool.eq_iff_iff, decide_eq_true_eq]
    exact ht.beq_iff_name_eq hk hl
  rw [compare?, hbeq, Keyword.compareBy_eq_compare_name ht address
    (KeywordTable.mem_of_find? hk) (KeywordTable.mem_of_find? hl),
    KeywordTable.name_of_find? hk, KeywordTable.name_of_find? hl]

/-- Corresponding results compare alike, wherever keywords lie. -/
theorem Matches.compare?_eq {i i' j j' : Identifier} (ht : t.Sound) (ht' : t'.Sound)
    (hi : i.Matches t t' first first' i') (hj : j.Matches t t' first first' j')
    (address address' : KeywordId → Nat) : i.compare? address j = i'.compare? address' j' := by
  cases hi with
  | keyword hk hk' =>
      cases hj with
      | keyword hl hl' => rw [compare?_keyword ht _ hk hl, compare?_keyword ht' _ hk' hl']
      | symbol hname hcode hnumber => rfl
  | @symbol a a' hname hcode hnumber =>
      cases hj with
      | keyword hl hl' => rfl
      | @symbol b b' hname' hcode' hnumber' =>
          -- the numbers of cores differ from run to run, their differences do not
          have hshares : a.sharesCore b = a'.sharesCore b' := by
            rw [Symbol.sharesCore, Symbol.sharesCore, Bool.eq_iff_iff, beq_iff_eq, beq_iff_eq]
            omega
          have hequal : (a == b) = (a' == b') := by
            change (a.sharesCore b || (a.code == b.code && a.name == b.name)) =
              (a'.sharesCore b' || (a'.code == b'.code && a'.name == b'.name))
            rw [hshares, hcode, hcode', hname, hname']
          have horder : compare a b = compare a' b' := by
            change compare a.name b.name = compare a'.name b'.name
            rw [hname, hname']
          rw [compare?, compare?, hshares, hequal, horder]

end Identifier

/-- Corresponding replies: matching results, or one and the same reply that gives none. -/
inductive Reply.Matches (t t' : KeywordTable) (first first' : Nat) : Reply → Reply → Prop where
  | identifier {i i' : Identifier} : i.Matches t t' first first' i' →
      Matches t t' first first' (.identifier i) (.identifier i')
  | plain {r : Reply} : r.identifier? = none → Matches t t' first first' r r

/-! ## Sessions that correspond -/

namespace Session

/-- The invariant of two sessions that ask the same: sound tables, replies that match, and as
many cores made by one as by the other. -/
structure Alike (first first' : Nat) (s s' : Session) : Prop where
  sound : s.table.Sound
  sound' : s'.table.Sound
  replies : List.Forall₂ (Reply.Matches s.table s'.table first first') s.replies s'.replies
  nextCore : s.supply.nextCore + first' = s'.supply.nextCore + first

variable {first first' : Nat} {s s' : Session}

theorem Alike.reply (h : Alike first first' s s') {r r' : Reply}
    (hr : r.Matches s.table s'.table first first' r') :
    Alike first first' (s.reply r) (s'.reply r') where
  sound := h.sound
  sound' := h.sound'
  replies := List.rel_append h.replies (.cons hr .nil)
  nextCore := h.nextCore

theorem Alike.withTable (h : Alike first first' s s') (r r' : Registry)
    (hr : r.table.Sound) (hr' : r'.table.Sound)
    (hextends : s.table.Extends r.table) (hextends' : s'.table.Extends r'.table) :
    Alike first first' { s with registry := r } { s' with registry := r' } where
  sound := hr
  sound' := hr'
  replies := h.replies.imp fun _ _ hreply => by
    cases hreply with
    | identifier hi => exact .identifier (hi.mono hextends hextends')
    | plain hplain => exact .plain hplain
  nextCore := h.nextCore

/-- At a place both sessions have matching results, or neither has one. -/
theorem Alike.result? (h : Alike first first' s s') (place : Nat) :
    Option.Rel (Identifier.Matches s.table s'.table first first') (s.result? place)
      (s'.result? place) := by
  rw [Session.result?, Session.result?]
  obtain ⟨hr, hr'⟩ | ⟨r, r', hr, hr', hreply⟩ := rel_cases (forall₂_getElem? h.replies place)
  · rw [hr, hr']
    exact .none
  · rw [hr, hr']
    cases hreply with
    | identifier hi => exact .some hi
    | plain hplain =>
        simp only [Option.bind_some, hplain]
        exact .none

theorem Alike.compared_eq (h : Alike first first' s s') (place other : Nat) :
    s.compared place other = s'.compared place other := by
  rw [compared, compared]
  obtain ⟨hi, hi'⟩ | ⟨i, i', hi, hi', hmatch⟩ := rel_cases (h.result? place)
  · rw [hi, hi']
    rfl
  · rw [hi, hi']
    obtain ⟨hj, hj'⟩ | ⟨j, j', hj, hj', hmatch'⟩ := rel_cases (h.result? other)
    · rw [hj, hj']
      rfl
    · rw [hj, hj']
      exact hmatch.compare?_eq h.sound h.sound' hmatch' s.address s'.address

/-! ## One request -/

/-- The session after a keyword was interned. -/
def withKeyword (s : Session) (q : Name) : Session :=
  s.interned ((s.registry.intern q).map .ok id)

/-- The session after a symbol was made. -/
def withSymbol (s : Session) (q : Name) (metadata : Option Metadata) : Session :=
  { s with supply.nextCore := s.supply.nextCore + 1 }.reply
    (.identifier (.symbol ⟨s.supply.core q, metadata⟩))

theorem interned_internChecked (s : Session) (q : Except NameFault Name) :
    s.interned (s.registry.internChecked q) =
      match q with
      | .error f => s.reply (.fault f)
      | .ok q => s.withKeyword q := by
  cases q <;> rfl

theorem made_symbol (s : Session) (ns : Option String) (localName : String)
    (metadata : Option Metadata) :
    s.made (s.registry.symbol ns localName metadata) =
      match Name.ofParts ns localName with
      | .error f => s.reply (.fault f)
      | .ok q => s.withSymbol q metadata := by
  rw [Registry.symbol, Symbol.ofPartsWith, Symbol.ofParts]
  cases Name.ofParts ns localName <;> rfl

/-- All that one request does to two sessions that are alike: both get matching replies, a
keyword of one name, or a symbol of one name. -/
inductive Advance (first first' : Nat) (s s' : Session) : Session → Session → Prop where
  | reply {r r'} : r.Matches s.table s'.table first first' r' →
      Advance first first' s s' (s.reply r) (s'.reply r')
  | keyword (q) : Advance first first' s s' (s.withKeyword q) (s'.withKeyword q)
  | symbol (q metadata metadata') :
      Advance first first' s s' (s.withSymbol q metadata) (s'.withSymbol q metadata')

theorem Advance.internChecked (q : Except NameFault Name) :
    Advance first first' s s' (s.interned (s.registry.internChecked q))
      (s'.interned (s'.registry.internChecked q)) := by
  rw [interned_internChecked, interned_internChecked]
  cases q with
  | error f => exact .reply (.plain rfl)
  | ok q => exact .keyword q

theorem findKeyword_matches {r r' : Registry} (hp : r.table.Parallel r'.table)
    (ns : Option String) (localName : String) :
    Option.Rel (fun k k' => r.table.find? k.name = some k ∧ r'.table.find? k.name = some k')
      (r.findKeyword ns localName) (r'.findKeyword ns localName) := by
  rw [Registry.findKeyword, Registry.findKeyword]
  cases Name.ofParts ns localName with
  | error f => exact .none
  | ok q => exact hp.find? q

/-- A request has the same effect on sessions that are alike; for a look-up their tables must be
parallel. -/
theorem Alike.advance (h : Alike first first' s s') (request : Request)
    (hparallel : request.looksUp → s.table.Parallel s'.table) :
    Advance first first' s s' (s.perform request) (s'.perform request) := by
  cases request with
  | keyword ns localName => exact .internChecked (Name.ofParts ns localName)
  | parseKeyword literal => exact .internChecked (Name.parse (Registry.dropMarker literal))
  | intern q => exact .keyword q
  | keywordOfSymbol place =>
      obtain ⟨hi, hi'⟩ | ⟨i, i', hi, hi', hmatch⟩ := rel_cases (h.result? place)
      · simp only [perform, hi, hi']
        exact .reply (.plain rfl)
      · simp only [perform, hi, hi']
        cases hmatch with
        | keyword hk hk' => exact .reply (.plain rfl)
        | @symbol a a' hname hcode hnumber =>
            simp only [Registry.keywordOfSymbol, hname]
            exact .keyword a'.name
  | toSymbol place =>
      obtain ⟨hi, hi'⟩ | ⟨i, i', hi, hi', hmatch⟩ := rel_cases (h.result? place)
      · simp only [perform, hi, hi']
        exact .reply (.plain rfl)
      · simp only [perform, hi, hi']
        cases hmatch with
        | @keyword q k k' hk hk' =>
            simp only [Keyword.toSymbol, KeywordTable.name_of_find? hk,
              KeywordTable.name_of_find? hk']
            exact .symbol q none none
        | symbol hname hcode hnumber => exact .reply (.plain rfl)
  | symbol ns localName attach =>
      simp only [perform, made_symbol]
      cases Name.ofParts ns localName with
      | error f => exact .reply (.plain rfl)
      | ok q => exact .symbol q _ _
  | compare place other =>
      simp only [perform, h.compared_eq place other]
      refine .reply (.plain ?_)
      cases s'.compared place other <;> rfl
  | code place =>
      obtain ⟨hi, hi'⟩ | ⟨i, i', hi, hi', hmatch⟩ := rel_cases (h.result? place)
      · simp only [perform, hi, hi']
        exact .reply (.plain rfl)
      · simp only [perform, hi, hi', Option.elim_some, hmatch.code_eq h.sound h.sound']
        exact .reply (.plain rfl)
  | find ns localName =>
      -- the one request whose reply tells what was installed in advance
      have hfound := findKeyword_matches (hparallel rfl) ns localName
      obtain ⟨hk, hk'⟩ | ⟨k, k', hk, hk', hbound, hbound'⟩ := rel_cases hfound
      · simp only [perform, hk, hk']
        exact .reply (.plain rfl)
      · simp only [perform, hk, hk']
        exact .reply (.identifier (.keyword hbound hbound'))

variable {u u' : Session}

theorem Advance.alike (hu : Advance first first' s s' u u') (h : Alike first first' s s') :
    Alike first first' u u' := by
  cases hu with
  | reply hr => exact h.reply hr
  | keyword q =>
      have htable := h.withTable (s.registry.intern q).2 (s'.registry.intern q).2
        (h.sound.intern q) (h.sound'.intern q) (KeywordTable.extends_intern s.table q)
        (KeywordTable.extends_intern s'.table q)
      exact htable.reply (.identifier (.keyword (KeywordTable.find?_intern s.table q)
        (KeywordTable.find?_intern s'.table q)))
  | symbol q metadata metadata' =>
      have hcount : Alike first first' { s with supply.nextCore := s.supply.nextCore + 1 }
          { s' with supply.nextCore := s'.supply.nextCore + 1 } :=
        ⟨h.sound, h.sound', h.replies, by have := h.nextCore; simp only; omega⟩
      exact hcount.reply (.identifier (.symbol rfl rfl h.nextCore))

theorem Advance.parallel (hu : Advance first first' s s' u u')
    (h : s.table.Parallel s'.table) : u.table.Parallel u'.table := by
  cases hu with
  | reply hr => exact h
  | keyword q => exact h.intern q
  | symbol q metadata metadata' => exact h

/-! ## Whole sessions -/

theorem Alike.run (h : Alike first first' s s') {requests : List Request}
    (hrequests : ∀ q ∈ requests, ¬q.looksUp) :
    Alike first first' (s.run requests) (s'.run requests) := by
  induction requests generalizing s s' with
  | nil => exact h
  | cons request requests ih =>
      rw [List.forall_mem_cons] at hrequests
      have hadvance := h.advance request fun hlook => absurd hlook hrequests.1
      exact ih (hadvance.alike h) hrequests.2

/-- With parallel tables look-ups do no harm. -/
theorem Alike.run_parallel (h : Alike first first' s s') (hp : s.table.Parallel s'.table)
    (requests : List Request) :
    Alike first first' (s.run requests) (s'.run requests) ∧
      (s.run requests).table.Parallel (s'.run requests).table := by
  induction requests generalizing s s' with
  | nil => exact ⟨h, hp⟩
  | cons request requests ih =>
      have hadvance := h.advance request fun _ => hp
      exact ih (hadvance.alike h) (hadvance.parallel hp)

/-- What two sessions were told is the same, and their results compare alike. -/
structure Agree (s s' : Session) : Prop where
  replies : List.Forall₂ Reply.Agrees s.replies s'.replies
  compared : ∀ place other, s.compared place other = s'.compared place other

theorem Alike.agree (h : Alike first first' s s') : Agree s s' where
  replies := h.replies.imp fun _ _ hreply => by
    cases hreply with
    | identifier hi => exact .identifier hi.kind_eq hi.name_eq (hi.code_eq h.sound h.sound')
    | plain hplain => exact .same _
  compared := h.compared_eq

/-- Two registries show the same from outside. -/
structure ContentsAgree (r r' : Registry) : Prop where
  findKeyword : ∀ ns localName,
    Option.Rel (fun k k' => k.name = k'.name ∧ k.code = k'.code) (r.findKeyword ns localName)
      (r'.findKeyword ns localName)
  contains : ∀ q, r.table.contains q = r'.table.contains q
  size : r.table.size = r'.table.size
  sorted : r.table.sorted.map (·.name) = r'.table.sorted.map (·.name)
  hits : r.table.hits = r'.table.hits
  misses : r.table.misses = r'.table.misses

theorem map_name_sorted (t : KeywordTable) :
    t.sorted.map (·.name) = (t.keywords.map (·.name)).mergeSort fun p q => (compare p q).isLE :=
  List.map_mergeSort fun _ _ _ _ => rfl

theorem contentsAgree {r r' : Registry} (hr : r.table.Sound) (hr' : r'.table.Sound)
    (h : r.table.Parallel r'.table) : ContentsAgree r r' where
  findKeyword ns localName := by
    obtain ⟨hk, hk'⟩ | ⟨k, k', hk, hk', hbound, hbound'⟩ :=
      rel_cases (findKeyword_matches h ns localName)
    · rw [hk, hk']
      exact .none
    · rw [hk, hk']
      have hmatch : Identifier.Matches r.table r'.table 0 0 (.keyword k) (.keyword k') :=
        .keyword hbound hbound'
      exact .some ⟨hmatch.name_eq, hmatch.code_eq hr hr'⟩
  contains q := by
    rw [KeywordTable.contains, KeywordTable.contains]
    obtain ⟨hk, hk'⟩ | ⟨k, k', hk, hk', -⟩ := rel_cases (h.find? q)
    · rw [hk, hk']
    · rw [hk, hk']
      rfl
  size := by simpa [KeywordTable.size] using congrArg List.length h.names_eq
  sorted := by rw [map_name_sorted, map_name_sorted, h.names_eq]
  hits := h.hits_eq
  misses := h.misses_eq

theorem alike_start (l l' : Layout) (number number' : Nat) (supply supply' : Supply)
    (address address' : KeywordId → Nat) :
    Alike supply.nextCore supply'.nextCore (start ⟨l, .setUp number l⟩ supply address)
      (start ⟨l', .setUp number' l'⟩ supply' address') where
  sound := KeywordTable.sound_setUp number l
  sound' := KeywordTable.sound_setUp number' l'
  replies := .nil
  nextCore := Nat.add_comm _ _

/-- Layouts that pass the check give registries, and no session can tell which layout it has but
by looking up what may have been installed in advance; where the layouts agree on that, not even
so. -/
theorem layouts_indistinguishable {l l' : Layout} (hl : l.validate = .ok ())
    (hl' : l'.validate = .ok ()) (number number' : Nat) (supply supply' : Supply)
    (address address' : KeywordId → Nat) :
    ∃ r r', Registry.ofLayout number l = .ok r ∧ Registry.ofLayout number' l' = .ok r' ∧
      (∀ requests : List Request, (∀ q ∈ requests, ¬q.looksUp) →
        Agree ((start r supply address).run requests) ((start r' supply' address').run requests)) ∧
      (l.preloads = l'.preloads → ∀ requests : List Request,
        Agree ((start r supply address).run requests) ((start r' supply' address').run requests) ∧
        ContentsAgree ((start r supply address).run requests).registry
          ((start r' supply' address').run requests).registry) := by
  have hstart := alike_start l l' number number' supply supply' address address'
  refine ⟨_, _, Registry.ofLayout_of_validate hl number, Registry.ofLayout_of_validate hl' number',
    ?_, ?_⟩
  · intro requests hrequests
    exact (hstart.run hrequests).agree
  · intro hpreloads requests
    have hparallel := KeywordTable.parallel_setUp hpreloads number number'
    obtain ⟨halike, hparallel⟩ := hstart.run_parallel hparallel requests
    exact ⟨halike.agree, contentsAgree halike.sound halike.sound' hparallel⟩

/-- One of two sessions empties its memo on the way; both give the first keyword again when its
symbol is made a keyword. -/
theorem layouts_indistinguishable_flush :
    let l : Layout := { shards := some 2, memoLimit := 1, preloads := false }
    let l' : Layout := { preloads := false }
    let requests : List Request :=
      [.keyword (some "a") "x", .parseKeyword ":b/y", .toSymbol 0, .keywordOfSymbol 2, .compare 0 3]
    let run (r : Registry) (more : List Request) :=
      (start r {} KeywordId.place).run (requests ++ more)
    l.validate = .ok () ∧ l'.validate = .ok () ∧ l.preloads = l'.preloads ∧
      (∀ q ∈ requests, ¬q.looksUp) ∧
      ∃ r r', Registry.ofLayout 0 l = .ok r ∧ Registry.ofLayout 1 l' = .ok r' ∧
        Event.memoFlushed 1 ∈ (run r []).table.journal ∧
        Event.memoFlushed 1 ∉ (run r' []).table.journal ∧
        (run r []).compared 0 3 = some ⟨true, true, .eq⟩ ∧
        (run r' []).compared 0 3 = some ⟨true, true, .eq⟩ ∧
        Agree (run r []) (run r' []) ∧
        Agree (run r [.find (some "b") "y"]) (run r' [.find (some "b") "y"]) ∧
        ContentsAgree (run r [.find none "y"]).registry (run r' [.find none "y"]).registry := by
  intro l l' requests run
  have hl : l.validate = .ok () := by decide
  have hl' : l'.validate = .ok () := by decide
  have hrequests : ∀ q ∈ requests, ¬q.looksUp := by decide
  obtain ⟨r, r', hr, hr', hblind, hsame⟩ :=
    layouts_indistinguishable hl hl' 0 1 {} {} KeywordId.place KeywordId.place
  obtain rfl := Except.ok.inj (hr.symm.trans (Registry.ofLayout_of_validate hl 0))
  obtain rfl := Except.ok.inj (hr'.symm.trans (Registry.ofLayout_of_validate hl' 1))
  have hagree := hblind requests hrequests
  have hfirst : (run ⟨l, .setUp 0 l⟩ []).compared 0 3 = some ⟨true, true, .eq⟩ := by decide
  exact ⟨hl, hl', rfl, hrequests, _, _, hr, hr', by decide, by decide, hfirst,
    (hagree.compared 0 3).symm.trans hfirst, hagree, (hsame rfl _).1, (hsame rfl _).2⟩

end Session

end Moniker
