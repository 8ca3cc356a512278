import AnylWallet.Eth.ReplyTexts
import AnylWallet.Lib.JsonPrint

/-!
# The members of an error object

The loop over an error object makes two rounds for each member, and takes a value that it does not know for
the next key.

* `taken_error`: the key of an error object is come to, if the strings in front of it are followed by
  what they ask for.
* `further_of_errorEntries`: **every member of an error object that is accepted, but its code, is a string**.
-/

namespace AnylWallet.Eth

open AnylWallet.Lib AnylWallet.Lib.Json AnylWallet.Helpers

/-- The node of a string is the only one. -/
theorem nodes_of_kind_string {v : Value} {q : ℕ} {n : Node} {rest : List Node}
    (h : v.nodes q = n :: rest) (hkind : n.kind = .string) :
    rest = [] ∧ v.string? = some n.text := by
  cases v with
  | string body =>
      cases h
      exact ⟨rfl, rfl⟩
  | scalar | emptyArray | array | emptyObject | object =>
      cases h
      cases hkind

/-- The node of a number or a word is the only one. -/
theorem nodes_of_scalar {v : Value} {s : List UInt8} (h : v.scalar? = some s) (q : ℕ) :
    v.nodes q = [⟨.scalar, q, s, 0⟩] := by
  cases v with
  | scalar scalar =>
      cases h
      rfl
  | string | emptyArray | array | emptyObject | object => cases h

variable {left c q : ℕ} {k : Node} {v : Value} {behind : List Node} {entries : List (Node × Node)}

/-- The loop has as many rounds left as the nodes of members ask for: it is at their first key, or behind
it, where it has taken that one for a value. -/
def AtMembers (c : ℕ) (l : List Node) : Prop :=
  ∃ left entries, 2 * c ≤ left ∧ ErrorEntries left l entries ∨
    2 * c - 1 ≤ left ∧ ErrorEntries left l.tail entries

/-- The loop takes the value of a member for a key: it is a string. -/
theorem atMembers_value (h : ErrorEntries left (v.nodes q ++ behind) entries)
    (hleft : 2 * c + 1 ≤ left) : (∃ s, v.string? = some s) ∧ AtMembers c behind := by
  obtain ⟨n, rest, hnodes⟩ := v.exists_nodes_cons q
  rw [hnodes, List.cons_append] at h
  generalize hl : rest ++ behind = l at h
  cases h with
  | done => omega
  | @other left _ _ _ hkind hkey h =>
      obtain ⟨rfl, hs⟩ := nodes_of_kind_string hnodes hkind
      rw [List.nil_append] at hl
      exact ⟨⟨_, hs⟩, left, entries, Or.inl ⟨by omega, hl ▸ h⟩⟩
  | @code left _ _ l es _ hkey _ _ h =>
      obtain ⟨rfl, hs⟩ := nodes_of_kind_string hnodes (of_decide_eq_true hkey).1
      rw [List.nil_append] at hl
      exact ⟨⟨_, hs⟩, left - 1, es, Or.inr ⟨by omega, by rwa [hl, List.tail_cons]⟩⟩
  | @message left _ _ l es hkey h =>
      obtain ⟨rfl, hs⟩ := nodes_of_kind_string hnodes (of_decide_eq_true hkey).1
      rw [List.nil_append] at hl
      exact ⟨⟨_, hs⟩, left - 1, es, Or.inr ⟨by omega, by rwa [hl, List.tail_cons]⟩⟩

/-- **One member**: a further one is a string, and the loop comes to the members behind it. -/
theorem atMembers_cons (hcode : k.text = ascii "code" → ∃ s, v.scalar? = some s)
    (hmessage : k.text = ascii "message" → ∃ s, v.string? = some s)
    (h : AtMembers (c + 1) (k :: (v.nodes q ++ behind))) :
    (k.text ≠ ascii "code" → ∃ s, v.string? = some s) ∧ AtMembers c behind := by
  obtain ⟨left, entries, ⟨hleft, h⟩ | ⟨hleft, h⟩⟩ := h
  swap
  · obtain ⟨hstring, hbehind⟩ := atMembers_value (c := c) h (by omega)
    exact ⟨fun _ => hstring, hbehind⟩
  generalize hl : v.nodes q ++ behind = l at h
  cases h with
  | done => omega
  | @other left _ _ _ hkind hkey h =>
      obtain ⟨hstring, hbehind⟩ := atMembers_value (c := c) (hl ▸ h) (by omega)
      exact ⟨fun _ => hstring, hbehind⟩
  | @code left _ n l es _ hkey _ _ h =>
      have htext := (of_decide_eq_true hkey).2
      obtain ⟨s, hs⟩ := hcode htext
      rw [nodes_of_scalar hs] at hl
      cases hl
      exact ⟨fun hne => absurd htext hne, left - 1, es, Or.inl ⟨by omega, h⟩⟩
  | @message left _ n l es hkey h =>
      obtain ⟨s, hs⟩ := hmessage (of_decide_eq_true hkey).2
      cases v with
      | string body =>
          cases hl
          exact ⟨fun _ => ⟨s, hs⟩, left - 1, es, Or.inl ⟨by omega, h⟩⟩
      | _ => cases hs

/-- The further members of members. -/
theorem further_of_atMembers : ∀ (members : Members) {p : ℕ} {behind : List Node},
    (∀ m ∈ members.toList, m.1 = ascii "code" → ∃ s, m.2.scalar? = some s) →
    (∀ m ∈ members.toList, m.1 = ascii "message" → ∃ s, m.2.string? = some s) →
    AtMembers members.count (members.nodes p ++ behind) →
      ∀ m ∈ members.toList, m.1 ≠ ascii "code" → ∃ s, m.2.string? = some s
  | .last key afterKey beforeValue value after, p, behind, hcode, hmessage, h => by
      rw [Members.toList] at hcode hmessage ⊢
      rw [List.forall_mem_singleton] at hcode hmessage ⊢
      exact (atMembers_cons (c := 0) hcode hmessage h).1
  | .cons key afterKey beforeValue value after before members, p, behind, hcode, hmessage, h => by
      rw [Members.toList] at hcode hmessage ⊢
      rw [List.forall_mem_cons] at hcode hmessage ⊢
      rw [Members.nodes, List.cons_append, List.append_assoc] at h
      obtain ⟨hfirst, hrest⟩ := atMembers_cons (c := members.count) hcode.1 hmessage.1 h
      exact ⟨hfirst, further_of_atMembers members hcode.2 hmessage.2 hrest⟩

/-! ## The error object of a response -/

/-- An id is no string `error`. -/
theorem not_denotesUlong_error {n : ℕ} : ¬ DenotesUlong (ascii "error") n := by
  rw [← strtoul_reads_iff]
  rintro ⟨⟨-, hsize⟩, -⟩
  revert hsize
  decide

/-- **The key of an error object is come to**: the node in front of it does not take it. -/
theorem taken_error {before : List Node} (hkey : k.isString (ascii "error") = true)
    (hids : ∀ r ∈ idsTaken (before ++ k :: behind), ∃ n, ReadsId r n)
    (herrors : ∀ r ∈ errorsTaken (before ++ k :: behind), ∃ entries, ReadsError r entries) :
    (k, behind) ∈ errorsTaken (before ++ k :: behind) := by
  have hhead : isHeadKey k = true := by rw [isHeadKey, hkey, Bool.true_or]
  suffices h : (k, behind) ∈ takes isHeadKey (before ++ k :: behind) from
    List.mem_filter.mpr ⟨h, hkey⟩
  unfold idsTaken at hids
  unfold errorsTaken at herrors
  induction before using takes_induction isHeadKey with
  | nil =>
      rw [List.nil_append, takes_cons_pos hhead]
      exact List.mem_cons_self
  | pass n rest hn ih =>
      rw [List.cons_append, takes_cons_neg hn] at hids herrors ⊢
      exact ih hids herrors
  | take n rest hn ih =>
      rw [List.cons_append, takes_cons_pos hn] at hids herrors ⊢
      cases rest with
      | cons m rest =>
          refine List.mem_cons_of_mem _ (ih (fun r hr => hids r ?_) fun r hr => herrors r ?_)
          · exact List.mem_filter.mpr ⟨List.mem_cons_of_mem _ (List.mem_filter.mp hr).1,
              (List.mem_filter.mp hr).2⟩
          · exact List.mem_filter.mpr ⟨List.mem_cons_of_mem _ (List.mem_filter.mp hr).1,
              (List.mem_filter.mp hr).2⟩
      | nil =>
          -- the key would be an id, or an error object
          obtain ⟨hkind, htext⟩ := of_decide_eq_true hkey
          cases hfirst : n.isString (ascii "error") with
          | true =>
              obtain ⟨_, v, hv, hobject, -⟩ :=
                herrors _ (List.mem_filter.mpr ⟨List.mem_cons_self, hfirst⟩)
              cases hv
              rw [hkind] at hobject
              cases hobject
          | false =>
              rw [isHeadKey, hfirst, Bool.false_or] at hn
              obtain ⟨_, v, hv, -, hnum⟩ := hids _ (List.mem_filter.mpr ⟨List.mem_cons_self, hn⟩)
              cases hv
              rw [htext] at hnum
              exact absurd hnum not_denotesUlong_error

/-- **Every member of an error object that is accepted, but its code, is a string.** -/
theorem further_of_errorEntries {doc : Document} {e : Value}
    (he : (ascii "error", e) ∈ doc.value.members)
    (hcode : ∀ m ∈ e.members, m.1 = ascii "code" → ∃ s, m.2.scalar? = some s)
    (hmessage : ∀ m ∈ e.members, m.1 = ascii "message" → ∃ s, m.2.string? = some s)
    (hids : ∀ r ∈ idsTaken doc.nodes.tail, ∃ n, ReadsId r n)
    (herrors : ∀ r ∈ errorsTaken doc.nodes.tail, ∃ entries, ReadsError r entries) :
    ∀ m ∈ e.members, m.1 ≠ ascii "code" → ∃ s, m.2.string? = some s := by
  obtain ⟨before, k, q, behind, hnodes, hkey⟩ :=
    Value.exists_nodes_eq he doc.before.text.length
  have hnodes' : doc.nodes.tail = before ++ k :: (e.nodes q ++ behind) := hnodes
  rw [hnodes'] at hids herrors
  obtain ⟨entries, n, hn, -, hentries⟩ := herrors _ (taken_error hkey hids herrors)
  cases e with
  | object blank members =>
      cases hn
      exact further_of_atMembers members hcode hmessage ⟨_, entries, Or.inl ⟨le_rfl, hentries⟩⟩
  | string | scalar | emptyArray | array | emptyObject => exact fun m hm => absurd hm List.not_mem_nil

end AnylWallet.Eth
