import Kexplorer.Kesctl.Network
import Kexplorer.Server.Daemon

/-!
# Commands from end to end

Any number of `kesctl` and the server that `main` puts together, with its handlers, its
sessions and the machine it runs on.

Both ends look for the end of a text by counting braces, strings or not, and a client takes
64 MiB at most.  `Printable` is a value whose text passes: there are no braces in its
strings and it is short enough.  Where the order of members or processes is open, it is the
same for every order.
-/

namespace Kexplorer.Json.Value

mutual

/-- The strings of a value, the names of members among them. -/
def strings : Value Empty → List Bytes
  | .null => []
  | .bool _ => []
  | .integer _ => []
  | .string s => [s]
  | .array items => itemStrings items
  | .object members => memberStrings members

def itemStrings : List (Value Empty) → List Bytes
  | [] => []
  | v :: items => strings v ++ itemStrings items

def memberStrings : List (Bytes × Value Empty) → List Bytes
  | [] => []
  | (name, v) :: members => name :: (strings v ++ memberStrings members)

end

theorem itemStrings_eq (items : List (Value Empty)) :
    itemStrings items = items.flatMap strings := by
  induction items with
  | nil => rfl
  | cons v items ih => rw [itemStrings, ih, List.flatMap_cons]

theorem memberStrings_eq (members : List (Bytes × Value Empty)) :
    memberStrings members = members.flatMap fun m => m.1 :: m.2.strings := by
  induction members with
  | nil => rfl
  | cons m members ih => rw [memberStrings, ih, List.flatMap_cons, List.cons_append]

/-- There are no braces in the strings of the value. -/
def Braceless (v : Value Empty) : Prop := ∀ s ∈ v.strings, 0x7B ∉ s ∧ 0x7D ∉ s

instance (v : Value Empty) : Decidable v.Braceless :=
  inferInstanceAs (Decidable (∀ s ∈ v.strings, 0x7B ∉ s ∧ 0x7D ∉ s))

theorem braceless_array {items : List (Value Empty)} :
    Braceless (.array items) ↔ ∀ v ∈ items, v.Braceless := by
  rw [Braceless, strings, itemStrings_eq]
  simp only [List.mem_flatMap, forall_exists_index, and_imp, Braceless]
  exact ⟨fun h v hv s => h s v hv, fun h s v hv => h v hv s⟩

theorem braceless_object {members : List (Bytes × Value Empty)} :
    Braceless (.object members) ↔
      ∀ m ∈ members, (0x7B ∉ m.1 ∧ 0x7D ∉ m.1) ∧ m.2.Braceless := by
  rw [Braceless, strings, memberStrings_eq]
  simp only [List.mem_flatMap, forall_exists_index, and_imp, Braceless]
  constructor
  · exact fun h m hm => ⟨h m.1 m hm List.mem_cons_self, fun s hs =>
      h s m hm (List.mem_cons_of_mem _ hs)⟩
  · intro h s m hm hs
    rcases List.mem_cons.mp hs with rfl | hs
    · exact (h m hm).1
    · exact (h m hm).2 s hs

end Kexplorer.Json.Value

namespace Kexplorer.Kesctl

open Kexplorer.Json Kexplorer.Lib Kexplorer.Process Kexplorer.Props Kexplorer.Server Kexplorer.Util

/-! ## Braces -/

/-- As many braces are closed as opened, and none before it is opened. -/
def Balanced (s : Bytes) : Prop := braces.NeverCloses s ∧ braces.depth s = 0

theorem Balanced.append {l r : Bytes} (hl : Balanced l) (hr : Balanced r) : Balanced (l ++ r) :=
  balanced_append hl hr

/-- A byte that is no brace. -/
theorem Balanced.byte {c : UInt8} (h : c ≠ 0x7B ∧ c ≠ 0x7D) : Balanced [c] :=
  balanced_of_notMem (fun hMem => h.1 (List.mem_singleton.mp hMem).symm)
    (fun hMem => h.2 (List.mem_singleton.mp hMem).symm)

theorem Balanced.cons {c : UInt8} {s : Bytes} (hByte : c ≠ 0x7B ∧ c ≠ 0x7D) (h : Balanced s) :
    Balanced (c :: s) :=
  (Balanced.byte hByte).append h

theorem Balanced.wrap {c d : UInt8} {s : Bytes} (hOpen : c ≠ 0x7B ∧ c ≠ 0x7D)
    (hClose : d ≠ 0x7B ∧ d ≠ 0x7D) (h : Balanced s) : Balanced (c :: (s ++ [d])) :=
  .cons hOpen (h.append (.byte hClose))

/-- A byte of an escaped string is one of the string, or belongs to an escape. -/
theorem mem_escapeByte {c d : UInt8} (h : d ∈ escapeByte c) : d = c ∨ isTokenByte d = true := by
  have hPair : ∀ e : UInt8, isTokenByte e = true → d ∈ [0x5C, e] → isTokenByte d = true := by
    intro e he hd
    rcases List.mem_cons.mp hd with rfl | hd
    · decide
    · exact List.mem_singleton.mp hd ▸ he
  unfold escapeByte at h
  split at h
  · exact .inr (hPair _ (by decide) h)
  split at h
  · exact .inr (hPair _ (by decide) h)
  split at h
  · exact .inr (hPair _ (by decide) h)
  split at h
  · exact .inr (hPair _ (by decide) h)
  split at h
  · exact .inr (hPair _ (by decide) h)
  split at h
  · exact .inr (hPair _ (by decide) h)
  split at h
  · exact .inr (hPair _ (by decide) h)
  split at h
  · have hHex : ∀ n : UInt8, n.toNat < 16 → isTokenByte (hexDigit n) = true := fun n hn => by
      rw [isTokenByte, isHexDigit_hexDigit hn, Bool.true_or]
    have hHigh := hHex (c >>> 4) (by rw [toNat_high]; have := c.toNat_lt; omega)
    have hLow := hHex (c &&& 0xF) (by rw [toNat_low]; omega)
    right
    simp only [List.mem_cons, List.not_mem_nil, or_false] at h
    rcases h with rfl | rfl | rfl | rfl | rfl | rfl
    · decide
    · decide
    · decide
    · decide
    · exact hHigh
    · exact hLow
  · exact .inl (List.mem_singleton.mp h)

theorem balanced_quote {s : Bytes} (h : 0x7B ∉ s ∧ 0x7D ∉ s) : Balanced (quote s) := by
  have hEscape : ∀ d, isTokenByte d = false → d ∉ s → d ∉ escape s := by
    intro d hToken hNot hMem
    induction s with
    | nil => cases hMem
    | cons c s ih =>
        rw [List.mem_cons, not_or] at hNot
        rcases List.mem_append.mp hMem with hMem | hMem
        · rcases mem_escapeByte hMem with hEq | hIs
          · exact hNot.1 hEq
          · rw [hToken] at hIs
            cases hIs
        · refine ih ⟨fun hOpen => h.1 (List.mem_cons_of_mem _ hOpen),
            fun hClose => h.2 (List.mem_cons_of_mem _ hClose)⟩ hNot.2 hMem
  exact Balanced.wrap (by decide) (by decide)
    (balanced_of_notMem (hEscape _ (by decide) h.1) (hEscape _ (by decide) h.2))

/-- The items of a list, each with a comma, and the first without. -/
theorem renderItems_eq_tail (items : List (Value Empty)) :
    Value.renderItems items = (Value.renderItemsTail items).tail := by
  cases items with
  | nil => rfl
  | cons v items => rfl

theorem renderMembers_eq_tail (members : List (Bytes × Value Empty)) :
    Value.renderMembers members = (Value.renderMembersTail members).tail := by
  cases members with
  | nil => rfl
  | cons m members => rfl

theorem balanced_renderItems {items : List (Value Empty)} (h : ∀ v ∈ items, Balanced v.render) :
    Balanced (Value.renderItems items) := by
  have hTail : ∀ {items : List (Value Empty)}, (∀ v ∈ items, Balanced v.render) →
      Balanced (Value.renderItemsTail items) := by
    intro items h
    induction items with
    | nil => exact balanced_of_notMem (by decide) (by decide)
    | cons v items ih =>
        obtain ⟨hHead, hItems⟩ := List.forall_mem_cons.mp h
        exact .cons (by decide) (hHead.append (ih hItems))
  cases items with
  | nil => exact hTail h
  | cons v items =>
      obtain ⟨hHead, hItems⟩ := List.forall_mem_cons.mp h
      exact hHead.append (hTail hItems)

theorem balanced_renderMembers {members : List (Bytes × Value Empty)}
    (h : ∀ m ∈ members, Balanced (quote m.1) ∧ Balanced m.2.render) :
    Balanced (Value.renderMembers members) := by
  have hTail : ∀ {members : List (Bytes × Value Empty)},
      (∀ m ∈ members, Balanced (quote m.1) ∧ Balanced m.2.render) →
        Balanced (Value.renderMembersTail members) := by
    intro members h
    induction members with
    | nil => exact balanced_of_notMem (by decide) (by decide)
    | cons m members ih =>
        obtain ⟨hHead, hMembers⟩ := List.forall_mem_cons.mp h
        exact .cons (by decide)
          (hHead.1.append (.cons (by decide) (hHead.2.append (ih hMembers))))
  cases members with
  | nil => exact hTail h
  | cons m members =>
      obtain ⟨hHead, hMembers⟩ := List.forall_mem_cons.mp h
      exact hHead.1.append (.cons (by decide) (hHead.2.append (hTail hMembers)))

theorem enclosed_of_members {members : List (Bytes × Value Empty)}
    (h : ∀ m ∈ members, Balanced (quote m.1) ∧ Balanced m.2.render) :
    braces.Enclosed (Value.render (.object members)) := by
  have hMembers := balanced_renderMembers h
  exact .of_wrap (by decide) (by decide) hMembers.1 hMembers.2

theorem balanced_render (v : Value Empty) (h : v.Braceless) : Balanced v.render := by
  induction v using Value.induction with
  | hNull => exact balanced_of_notMem (by decide) (by decide)
  | hBool b =>
      cases b with
      | false => exact balanced_of_notMem (by decide) (by decide)
      | true => exact balanced_of_notMem (by decide) (by decide)
  | hInteger n => exact balanced_number (number_render n)
  | hDouble d => exact d.elim
  | hString s => exact balanced_quote (h s List.mem_cons_self)
  | hArray items ih =>
      rw [Value.braceless_array] at h
      exact .wrap (by decide) (by decide) (balanced_renderItems fun v hv => ih v hv (h v hv))
  | hObject members ih =>
      rw [Value.braceless_object] at h
      have hEnclosed := enclosed_of_members fun m hm =>
        ⟨balanced_quote (h m hm).1, ih m hm (h m hm).2⟩
      exact ⟨hEnclosed.neverCloses, hEnclosed.depth⟩

/-- An object without braces in its strings ends where its braces are closed first. -/
theorem enclosed_render {members : List (Bytes × Value Empty)}
    (h : Value.Braceless (.object members)) : braces.Enclosed (Value.render (.object members)) := by
  rw [Value.braceless_object] at h
  exact enclosed_of_members fun m hm =>
    ⟨balanced_quote (h m hm).1, balanced_render m.2 (h m hm).2⟩

/-! ## The order of members and processes -/

theorem length_renderItemsTail (items : List (Value Empty)) :
    (Value.renderItemsTail items).length = (items.map fun v => v.render.length + 1).sum := by
  induction items with
  | nil => rfl
  | cons v items ih =>
      rw [Value.renderItemsTail, List.length_cons, List.length_append, ih, List.map_cons,
        List.sum_cons]
      omega

theorem length_renderMembersTail (members : List (Bytes × Value Empty)) :
    (Value.renderMembersTail members).length =
      (members.map fun m => (quote m.1).length + m.2.render.length + 2).sum := by
  induction members with
  | nil => rfl
  | cons m members ih =>
      rw [Value.renderMembersTail, List.length_cons, List.length_append, List.length_cons,
        List.length_append, ih, List.map_cons, List.sum_cons]
      omega

theorem length_render_array (items : List (Value Empty)) :
    (Value.render (.array items)).length =
      (items.map fun v => v.render.length + 1).sum - 1 + 2 := by
  rw [Value.render, List.length_cons, List.length_append, renderItems_eq_tail, List.length_tail,
    length_renderItemsTail, List.length_singleton]

theorem length_render_object (members : List (Bytes × Value Empty)) :
    (Value.render (.object members)).length =
      (members.map fun m => (quote m.1).length + m.2.render.length + 2).sum - 1 + 2 := by
  rw [Value.render, List.length_cons, List.length_append, renderMembers_eq_tail, List.length_tail,
    length_renderMembersTail, List.length_singleton]

/-- The order of members does not change how long the text is. -/
theorem length_of_rearranged {v v' : Value Empty} (h : Rearranged v v') :
    v'.render.length = v.render.length := by
  induction v using Value.induction generalizing v' with
  | hArray items ih =>
      cases h with
      | refl => rfl
      | array hItems =>
          have hMap := map_eq_of_forall₂ (f := fun v => v.render.length + 1)
            (g := fun v => v.render.length + 1) hItems fun v hv v' hv' =>
              congrArg (· + 1) (ih v hv hv').symm
          rw [length_render_array, length_render_array, hMap]
  | hObject members ih =>
      cases h with
      | refl => rfl
      | object hMembers hPerm =>
          have hMap := map_eq_of_forall₂ (f := fun m => (quote m.1).length + m.2.render.length + 2)
            (g := fun m => (quote m.1).length + m.2.render.length + 2) hMembers
            fun m hm m' hAt => by
              obtain ⟨hValue⟩ := hAt
              rw [ih _ hm hValue]
          rw [length_render_object, length_render_object, hMap, (hPerm.map _).sum_nat]
  | _ =>
      cases h
      rfl

/-- Nor whether there are braces in its strings. -/
theorem braceless_of_rearranged {v v' : Value Empty} (h : Rearranged v v') (hv : v.Braceless) :
    v'.Braceless := by
  induction v using Value.induction generalizing v' with
  | hArray items ih =>
      cases h with
      | refl => exact hv
      | array hItems =>
          rw [Value.braceless_array] at hv ⊢
          exact forall_mem_of_forall₂ hItems (fun v hv v' hAlike => ih v hv hAlike) hv
  | hObject members ih =>
      cases h with
      | refl => exact hv
      | object hMembers hPerm =>
          rw [Value.braceless_object] at hv ⊢
          have hAll := forall_mem_of_forall₂
            (Q := fun m => (0x7B ∉ m.1 ∧ 0x7D ∉ m.1) ∧ m.2.Braceless) hMembers
            (fun m hm m' hAt hPlain => by
              obtain ⟨hAlike⟩ := hAt
              exact ⟨hPlain.1, ih _ hm hAlike hPlain.2⟩) hv
          exact fun m hm => hAll m (hPerm.mem_iff.mpr hm)
  | _ =>
      cases h
      exact hv

/-- A value whose text a client takes as a whole. -/
structure Printable (v : Value Empty) : Prop where
  braceless : v.Braceless
  fits : v.render.length ≤ Client.bufferLimit

instance (v : Value Empty) : Decidable (Printable v) :=
  decidable_of_iff (v.Braceless ∧ v.render.length ≤ Client.bufferLimit)
    ⟨fun h => ⟨h.1, h.2⟩, fun h => ⟨h.braceless, h.fits⟩⟩

/-- However its members are ordered, the client takes the text of a printable object. -/
theorem Printable.taken {members : List (Bytes × Value Empty)} (h : Printable (.object members))
    {text : Bytes} (hText : Renders text (.object members)) :
    braces.Enclosed text ∧ text.length ≤ Client.bufferLimit := by
  obtain ⟨v, hValue, rfl⟩ := hText
  have hPlain := braceless_of_rearranged hValue h.braceless
  refine ⟨?_, (length_of_rearranged hValue).trans_le h.fits⟩
  cases hValue with
  | refl => exact enclosed_render hPlain
  | object _ _ => exact enclosed_render hPlain

/-- However the processes are ordered, a list of them is printable. -/
theorem Printable.of_perm {id : Int32} {entries order : List Entry}
    (h : Printable (listing id entries)) (hPerm : order.Perm entries) :
    Printable (listing id order) := by
  refine ⟨?_, ?_⟩
  · have hPlain := h.braceless
    unfold listing Entry.member at hPlain ⊢
    rw [Value.braceless_object, List.forall_mem_cons] at hPlain ⊢
    obtain ⟨⟨hName, hEntries⟩, hRest⟩ := hPlain
    refine ⟨⟨hName, ?_⟩, hRest⟩
    rw [Value.braceless_array] at hEntries ⊢
    exact fun v hv => hEntries v ((hPerm.map Entry.value).mem_iff.mp hv)
  · refine Nat.le_trans (Nat.le_of_eq ?_) h.fits
    have hLength : (Value.render (.array (order.map Entry.value))).length =
        (Value.render (.array (entries.map Entry.value))).length := by
      rw [length_render_array, length_render_array,
        ((hPerm.map Entry.value).map fun v => v.render.length + 1).sum_nat]
    unfold listing Entry.member
    simp only [length_render_object, List.map_cons, hLength]

/-! ## The commands of `kesctl` -/

/-- The server that `main` starts, and what is to be told on the machine it runs on. -/
structure Deployment (α : Type) where
  machines : Nat → Machine α
  globalHandler : GlobalCmdHandler
  strtod : Bytes → Option Json.Double
  rp : RequestProcessor Handler
  /-- The processes that there are at a call. -/
  entries : Nat → List Entry
  started : RequestProcessor.After Daemon.construction rp
  mounted : ∀ call, (machines call).kernel.Mounted (entries call)
  version : Printable (Daemon.objectOf
    (Daemon.success 1 [(Response.Version, .string globalHandler.version)]))
  lists : ∀ call, Printable (listing 1 (entries call))

namespace Deployment

variable {α : Type} (d : Deployment α)

/-- The request processor behind the sessions. -/
def processor : IRequestProcessor Daemon :=
  Daemon.processor d.machines d.globalHandler d.strtod d.rp

/-- The process manager knows the session. -/
def Known (id : UInt32) (s : Daemon) : Prop :=
  (UnorderedMap.find s.manager.sessions id).isSome = true

variable {d}

/-- However members and processes are ordered, the client takes an answer as a whole. -/
theorem taken {entries : List Entry} (hEntries : Printable (listing 1 entries)) {command : CString}
    {reply : Bytes} (h : Daemon.Replies d.globalHandler.version entries 1 command reply) :
    braces.Enclosed reply ∧ reply.length ≤ Client.bufferLimit := by
  have hSuccess : Printable (Daemon.objectOf (Daemon.success 1 [])) := by decide +kernel
  have hFailure : Printable (Daemon.objectOf (Daemon.failure 1)) := by decide +kernel
  unfold Daemon.Replies at h
  split at h
  · exact hSuccess.taken h
  · split at h
    · exact d.version.taken h
    · split at h
      · obtain ⟨order, hOrder, hReply⟩ := h
        exact (hEntries.of_perm hOrder).taken hReply
      · exact hFailure.taken h

/-- The end of a session leaves the others. -/
theorem known_endSession {rp : RequestProcessor Handler}
    (hStarted : RequestProcessor.After Daemon.construction rp) {id other : UInt32}
    (hOther : other ≠ id) {s : Daemon} (hKnown : Known other s) :
    Known other (Daemon.endSession rp id s) := by
  rw [Known, Daemon.find_endSession hStarted, if_neg hOther]
  exact hKnown

end Deployment

end Kexplorer.Kesctl
