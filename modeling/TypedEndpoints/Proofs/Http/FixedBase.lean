import TypedEndpoints.Proofs.Http.Joining
import TypedEndpoints.Proofs.Http.Settling
/-! The base of an address. A base without placeholders stands in front of every address as it is: the slash
behind it keeps it apart from the path, so nothing that is filled in reaches it. -/
namespace TypedEndpoints.Template

def Unfillable (t : String) : Prop := ∀ place key, ¬ PlaceholderAt t.toList place key

namespace Splitting

@[simp] theorem ofPieces_chars_places (cs : List Char) (ps : List Piece) (start : Nat) :
    (ofPieces (cs.map .char ++ ps)).places start = (ofPieces ps).places (start + cs.length) := by
  induction cs generalizing start with
  | nil => rfl
  | cons c cs ih =>
      have hlength : start + 1 + cs.length = start + (cs.length + 1) := by omega
      rw [List.map_cons, List.cons_append, ofPieces, prepend_places, ih, List.length_cons, hlength]

end Splitting

/-- A text that is scanned to its characters only moves the placeholders behind it. -/
theorem placeholderAt_behind {before after : List Char}
    (h : pieces (before ++ after) = before.map .char ++ pieces after) {place : Nat} {key : String} :
    PlaceholderAt (before ++ after) place key ↔
      ∃ x, place = before.length + x ∧ PlaceholderAt after x key := by
  have hwhole := (Splitting.splits_pieces (before ++ after)).places place key
  rw [h, Splitting.ofPieces_chars_places, Nat.zero_add, Splitting.mem_places] at hwhole
  rw [← hwhole]
  constructor
  · rintro ⟨x, rfl, hx⟩
    exact ⟨x, Nat.add_comm _ _, ((Splitting.splits_pieces after).places x key).mp hx⟩
  · rintro ⟨x, rfl, hx⟩
    exact ⟨x, Nat.add_comm _ _, ((Splitting.splits_pieces after).places x key).mpr hx⟩

@[simp] theorem holeNames_chars (cs : List Char) (ps : List Piece) :
    holeNames (cs.map .char ++ ps) = holeNames ps := by
  induction cs with
  | nil => rfl
  | cons c cs ih => exact ih

@[simp] theorem fill_chars (params : Params) (cs : List Char) :
    (cs.map Piece.char).flatMap (Piece.fill params) = cs := by
  induction cs with
  | nil => rfl
  | cons c cs ih => simp only [List.map_cons, List.flatMap_cons, ih, Piece.fill, List.singleton_append]

theorem unfillable_iff {t : String} : Unfillable t ↔ pieces t.toList = t.toList.map .char := by
  refine ⟨pieces_plain, ?_⟩
  intro h place key hat
  have hmem := ((Splitting.splits_pieces t.toList).places place key).mpr hat
  rw [h, ← List.append_nil (t.toList.map Piece.char), Splitting.ofPieces_chars_places] at hmem
  exact List.not_mem_nil hmem

/-- The pieces of a base, of the slash behind it and of what follows. -/
theorem pieces_behind {base : String} (h : Unfillable base) (rest : List Char) :
    pieces (base.toList ++ '/' :: rest) = base.toList.map .char ++ pieces ('/' :: rest) := by
  have hslash : Separator '/' := by decide
  rw [pieces_append hslash.1 hslash.2.2, pieces_plain h]

theorem resolve_behind {base : String} (h : Unfillable base) (rest : String) (params : Params) :
    resolve (base ++ ("/" ++ rest)) params =
      { resolve ("/" ++ rest) params with value := base ++ (resolve ("/" ++ rest) params).value } := by
  have hpieces : pieces (base ++ ("/" ++ rest)).toList =
      base.toList.map .char ++ pieces ("/" ++ rest).toList := by
    rw [String.toList_append, String.toList_append]
    exact pieces_behind h rest.toList
  simp only [resolve, hpieces, holeNames_chars, List.flatMap_append, fill_chars, String.ofList_append,
    String.ofList_toList]

end TypedEndpoints.Template

namespace TypedEndpoints.Url
open Template

theorem build_behind {base template : String} (hbase : Unfillable base)
    (http : ¬ "http".toList <+: template.toList) (params : Option Params) :
    build base template params = base ++ build "" template params ∧
      ∃ rest, build "" template params = "/" ++ rest := by
  obtain ⟨rest, hjoin⟩ := join_behind http
  have hempty := hjoin ""
  have hjoined := hjoin base
  rw [String.empty_append] at hempty
  rw [String.append_assoc] at hjoined
  have hslash : Separator '/' := by decide
  cases params with
  | none =>
      simp only [build, hjoined, hempty]
      exact ⟨trivial, rest, rfl⟩
  | some params =>
      have hvalue : (resolve ("/" ++ rest) params).value = "/" ++ (resolve rest params).value := by
        have hcut : (resolve ("" ++ "/" ++ rest) params).value =
            "" ++ "/" ++ (resolve rest params).value := resolve_cut hslash "" rest params
        rwa [String.empty_append] at hcut
      refine ⟨?_, (resolve rest params).value ++
        String.ofList (query (leftover (resolve ("/" ++ rest) params) params)), ?_⟩
      · simp only [build, hjoined, hempty, leftover, resolve_behind hbase, String.append_assoc]
      · simp only [build, hempty, hvalue, String.append_assoc]

@[simp] theorem normalizeBase_slash (base : String) : normalizeBase (base ++ "/") = base := by
  have hreverse : (base ++ "/").toList.reverse = '/' :: base.toList.reverse := by
    rw [String.toList_append, List.reverse_append]
    rfl
  simp only [normalizeBase, hreverse, List.reverse_reverse, String.ofList_toList]

theorem normalizeBase_of_no_slash {base : String} (h : ¬ "/".toList <:+ base.toList) :
    normalizeBase base = base := by
  unfold normalizeBase
  split
  · next r hr =>
    refine absurd ⟨r.reverse, ?_⟩ h
    rw [← List.reverse_reverse base.toList, hr, List.reverse_cons]
    rfl
  · rfl

/-- The addresses of the requests that a call of a client sends. -/
def sentAddresses (c : Client (StateM (List SentRequest))) (path : String) (method : Method)
    (o : Option RequestOptions) : List String :=
  ((c.request path method o).run []).2.map (·.url)

/-- A client that notes what it sends, built from a base. -/
def notingClient (answer : List SentRequest → SentRequest → Except String RawResponse) (base : String) :
    Client (StateM (List SentRequest)) :=
  (ClientBuilder.withBase base {}).build (Transport.noting answer)

theorem noting_run (answer : List SentRequest → SentRequest → Except String RawResponse) (d : Descriptor)
    (sent : List SentRequest) :
    ((Transport.noting answer).run d).run sent =
      (d.conclude (answer sent d.prepare), sent ++ [d.prepare]) := by
  rw [Transport.run_eq]
  rfl

theorem sentAddresses_noting (answer : List SentRequest → SentRequest → Except String RawResponse)
    (base path : String) (method : Method) (o : Option RequestOptions) :
    sentAddresses (notingClient answer base) path method o =
      [build (normalizeBase base) path (o.getD {}).params] := by
  let d := Descriptor.ofOptions (normalizeBase base) path method (o.getD {})
  have hrequest : (notingClient answer base).request path method o = (Transport.noting answer).run d := rfl
  rw [sentAddresses, hrequest, noting_run]
  rfl

/-- A base without placeholders is what every address begins with, and a slash comes next: the rest of the
address is that of no base at all, and placeholders stand only in it. A slash at the end of a base makes no
difference to clients. -/
theorem base_is_fixed_prefix :
    (∀ base template : String, Unfillable base → ¬ "http".toList <+: template.toList →
      (∀ params, build base template params = base ++ build "" template params ∧
        ∃ rest, build "" template params = "/" ++ rest) ∧
      ∀ place key, PlaceholderAt (join base template).toList place key ↔
        ∃ x, place = base.length + x ∧ PlaceholderAt (join "" template).toList x key) ∧
    ∀ base : String, ¬ "/".toList <:+ base.toList →
      (∀ {m : Type → Type} (b : ClientBuilder m) (t : Transport m),
        (b.withBase (base ++ "/")).build t = (b.withBase base).build t) ∧
      ∀ answer path method o,
        sentAddresses (notingClient answer (base ++ "/")) path method o =
          [build base path (o.getD {}).params] ∧
        sentAddresses (notingClient answer base) path method o = [build base path (o.getD {}).params] := by
  refine ⟨?_, ?_⟩
  · intro base template hbase http
    refine ⟨build_behind hbase http, ?_⟩
    intro place key
    obtain ⟨rest, hjoin⟩ := join_behind http
    have hempty := hjoin ""
    rw [String.empty_append] at hempty
    rw [hjoin base, hempty, String.append_assoc, String.toList_append, ← String.length_toList]
    refine placeholderAt_behind ?_
    rw [String.toList_append]
    exact pieces_behind hbase rest.toList
  · intro base hslash
    have hclients : ∀ {m : Type → Type} (b : ClientBuilder m) (t : Transport m),
        (b.withBase (base ++ "/")).build t = (b.withBase base).build t := by
      intro m b t
      simp [ClientBuilder.build, ClientBuilder.withBase, normalizeBase_of_no_slash hslash]
    refine ⟨hclients, ?_⟩
    intro answer path method o
    rw [sentAddresses_noting, sentAddresses_noting, normalizeBase_slash, normalizeBase_of_no_slash hslash]
    exact ⟨rfl, rfl⟩

/-- A base that ends in an open brace and a name, and a path that begins with a closing brace. -/
theorem base_is_fixed_prefix_strayBrace :
    Unfillable "https://h/\x7ba" ∧ ¬ "http".toList <+: "\x7d/\x7bid\x7d".toList ∧
      ¬ "/".toList <:+ "https://h/\x7ba".toList ∧
      build "https://h/\x7ba" "\x7d/\x7bid\x7d" (some [("a", .integer 1), ("id", .integer 7)]) =
        "https://h/\x7ba" ++
          build "" "\x7d/\x7bid\x7d" (some [("a", .integer 1), ("id", .integer 7)]) ∧
      ∀ answer, sentAddresses (notingClient answer ("https://h/\x7ba" ++ "/")) "\x7d" .get none =
        [build "https://h/\x7ba" "\x7d" none] := by
  have hbase : Unfillable "https://h/\x7ba" := unfillable_iff.mpr (by decide)
  have http : ¬ "http".toList <+: "\x7d/\x7bid\x7d".toList := by decide
  have hslash : ¬ "/".toList <:+ "https://h/\x7ba".toList := by decide
  have hfixed := base_is_fixed_prefix
  exact ⟨hbase, http, hslash, ((hfixed.1 _ _ hbase http).1 _).1,
    fun answer => ((hfixed.2 _ hslash).2 answer "\x7d" .get none).1⟩

end TypedEndpoints.Url
