import CelWasm.Compiler.FunctionLibrary

/-!
# Compiler/OverloadTable — from overload ids to imports

Every overload the checker resolves a call to stands for a function of the module that is emitted:
one of the runtime's for the standard overloads, and for the functions an embedder declares an import
by the name of the overload id.
-/

namespace CelWasm

/-- `ImportModuleSource`. -/
inductive ImportModuleSource
  | cel
  | celHost
  | celFn
  deriving DecidableEq

/-- `ImportModuleName`. -/
def ImportModuleSource.importModuleName : ImportModuleSource → String
  | cel => "cel"
  | celHost => "cel_host"
  | celFn => "cel_fn"

/-- `OverloadDef`. -/
structure OverloadDef where
  overloadId : String
  wasmImportFunctionName : String
  wasmImportModuleType : ImportModuleSource
  numArgs : UInt8

/-- **`kBuiltinSeeds`**: an overload id, the helper that implements it, and the number of parameters
the runtime's catalogue gives the helper. -/
def builtinSeeds : List (String × String × UInt8) :=
  [("add_int64", "cel_int_add_at_vv", 3), ("add_uint64", "cel_uint_add_at_vv", 3),
   ("add_double", "cel_double_add_at_vv", 3), ("subtract_int64", "cel_int_sub_at_vv", 3),
   ("subtract_uint64", "cel_uint_sub_at_vv", 3), ("subtract_double", "cel_double_sub_at_vv", 3),
   ("multiply_int64", "cel_int_mul_at_vv", 3), ("multiply_uint64", "cel_uint_mul_at_vv", 3),
   ("multiply_double", "cel_double_mul_at_vv", 3), ("divide_int64", "cel_int_div_at_vv", 3),
   ("divide_uint64", "cel_uint_div_at_vv", 3), ("divide_double", "cel_double_div_at_vv", 3),
   ("modulo_int64", "cel_int_mod_at_vv", 3), ("modulo_uint64", "cel_uint_mod_at_vv", 3),
   ("negate_int64", "cel_int_neg_at_v", 2), ("negate_double", "cel_double_neg_at_v", 2),
   ("add_string", "cel_string_concat_at_vv", 3), ("add_bytes", "cel_bytes_concat_at_vv", 3),
   ("add_list", "cel_list_concat", 3), ("less_int64", "cel_int_lt_at_vv", 3),
   ("less_uint64", "cel_uint_lt_at_vv", 3), ("less_double", "cel_double_lt_at_vv", 3),
   ("less_string", "cel_string_lt_at_vv", 3), ("less_bytes", "cel_bytes_lt_at_vv", 3),
   ("less_equals_int64", "cel_int_le_at_vv", 3), ("less_equals_uint64", "cel_uint_le_at_vv", 3),
   ("less_equals_double", "cel_double_le_at_vv", 3), ("greater_int64", "cel_int_gt_at_vv", 3),
   ("greater_uint64", "cel_uint_gt_at_vv", 3), ("greater_double", "cel_double_gt_at_vv", 3),
   ("greater_equals_int64", "cel_int_ge_at_vv", 3),
   ("greater_equals_uint64", "cel_uint_ge_at_vv", 3),
   ("greater_equals_double", "cel_double_ge_at_vv", 3),
   ("less_int64_uint64", "cel_numeric_lt_at_vv", 3),
   ("less_int64_double", "cel_numeric_lt_at_vv", 3),
   ("less_double_int64", "cel_numeric_lt_at_vv", 3),
   ("less_double_uint64", "cel_numeric_lt_at_vv", 3),
   ("less_uint64_int64", "cel_numeric_lt_at_vv", 3),
   ("less_uint64_double", "cel_numeric_lt_at_vv", 3),
   ("less_equals_int64_uint64", "cel_numeric_le_at_vv", 3),
   ("less_equals_int64_double", "cel_numeric_le_at_vv", 3),
   ("less_equals_double_int64", "cel_numeric_le_at_vv", 3),
   ("less_equals_double_uint64", "cel_numeric_le_at_vv", 3),
   ("less_equals_uint64_int64", "cel_numeric_le_at_vv", 3),
   ("less_equals_uint64_double", "cel_numeric_le_at_vv", 3),
   ("greater_int64_uint64", "cel_numeric_gt_at_vv", 3),
   ("greater_int64_double", "cel_numeric_gt_at_vv", 3),
   ("greater_double_int64", "cel_numeric_gt_at_vv", 3),
   ("greater_double_uint64", "cel_numeric_gt_at_vv", 3),
   ("greater_uint64_int64", "cel_numeric_gt_at_vv", 3),
   ("greater_uint64_double", "cel_numeric_gt_at_vv", 3),
   ("greater_equals_int64_uint64", "cel_numeric_ge_at_vv", 3),
   ("greater_equals_int64_double", "cel_numeric_ge_at_vv", 3),
   ("greater_equals_double_int64", "cel_numeric_ge_at_vv", 3),
   ("greater_equals_double_uint64", "cel_numeric_ge_at_vv", 3),
   ("greater_equals_uint64_int64", "cel_numeric_ge_at_vv", 3),
   ("greater_equals_uint_double", "cel_numeric_ge_at_vv", 3), ("less_bool", "cel_bool_lt_at_vv", 3),
   ("less_equals_bool", "cel_bool_le_at_vv", 3), ("greater_bool", "cel_bool_gt_at_vv", 3),
   ("greater_equals_bool", "cel_bool_ge_at_vv", 3),
   ("less_equals_string", "cel_string_le_at_vv", 3), ("less_equals_bytes", "cel_bytes_le_at_vv", 3),
   ("greater_string", "cel_string_gt_at_vv", 3), ("greater_bytes", "cel_bytes_gt_at_vv", 3),
   ("greater_equals_string", "cel_string_ge_at_vv", 3),
   ("greater_equals_bytes", "cel_bytes_ge_at_vv", 3), ("size_string", "cel_string_size_at_v", 2),
   ("string_size", "cel_string_size_at_v", 2), ("size_bytes", "cel_bytes_size_at_v", 2),
   ("bytes_size", "cel_bytes_size_at_v", 2), ("size_list", "cel_list_size", 2),
   ("list_size", "cel_list_size", 2), ("size_map", "cel_map_size", 2),
   ("map_size", "cel_map_size", 2), ("in_list", "cel_list_in", 3), ("in_map", "cel_map_in", 3),
   ("equals", "cel_equals_at_vv", 3), ("not_equals", "cel_not_equals_at_vv", 3),
   ("logical_and", "cel_and", 3), ("logical_or", "cel_or", 3), ("logical_not", "cel_not", 2),
   ("add_duration_duration", "cel_dur_add_at_vv", 3),
   ("add_duration_timestamp", "cel_dur_ts_add_at_vv", 3),
   ("add_timestamp_duration", "cel_ts_dur_add_at_vv", 3),
   ("subtract_duration_duration", "cel_dur_sub_at_vv", 3),
   ("subtract_timestamp_duration", "cel_ts_dur_sub_at_vv", 3),
   ("subtract_timestamp_timestamp", "cel_ts_ts_sub_at_vv", 3),
   ("less_duration", "cel_dur_lt_at_vv", 3), ("less_timestamp", "cel_ts_lt_at_vv", 3),
   ("less_equals_duration", "cel_dur_le_at_vv", 3), ("less_equals_timestamp", "cel_ts_le_at_vv", 3),
   ("greater_duration", "cel_dur_gt_at_vv", 3), ("greater_timestamp", "cel_ts_gt_at_vv", 3),
   ("greater_equals_duration", "cel_dur_ge_at_vv", 3),
   ("greater_equals_timestamp", "cel_ts_ge_at_vv", 3),
   ("timestamp_to_year", "cel_ts_year_utc_at_v", 2),
   ("timestamp_to_month", "cel_ts_month_utc_at_v", 2),
   ("timestamp_to_day_of_month_1_based", "cel_ts_day_of_month_1_utc_at_v", 2),
   ("timestamp_to_day_of_month", "cel_ts_day_of_month_utc_at_v", 2),
   ("timestamp_to_day_of_year", "cel_ts_day_of_year_utc_at_v", 2),
   ("timestamp_to_day_of_week", "cel_ts_day_of_week_utc_at_v", 2),
   ("timestamp_to_hours", "cel_ts_hours_utc_at_v", 2),
   ("timestamp_to_minutes", "cel_ts_minutes_utc_at_v", 2),
   ("timestamp_to_seconds", "cel_ts_seconds_utc_at_v", 2),
   ("timestamp_to_milliseconds", "cel_ts_milliseconds_utc_at_v", 2),
   ("duration_to_hours", "cel_dur_hours_at_v", 2),
   ("duration_to_minutes", "cel_dur_minutes_at_v", 2),
   ("duration_to_seconds", "cel_dur_seconds_at_v", 2),
   ("duration_to_milliseconds", "cel_dur_milliseconds_at_v", 2),
   ("timestamp_to_int64", "cel_ts_to_int_at_v", 2), ("duration_to_int64", "cel_dur_to_int_at_v", 2),
   ("int64_to_timestamp", "cel_int_to_ts_at_v", 2), ("int64_to_duration", "cel_int_to_dur_at_v", 2),
   ("timestamp_to_timestamp", "cel_copy_slot", 2), ("duration_to_duration", "cel_copy_slot", 2),
   ("string_to_timestamp", "cel_timestamp_parse_at_v", 2),
   ("string_to_duration", "cel_duration_parse_at_v", 2),
   ("timestamp_to_string", "cel_timestamp_format_at_v", 2),
   ("duration_to_string", "cel_duration_format_at_v", 2),
   ("timestamp_to_year_with_tz", "cel_ts_year_with_tz_at_vv", 3),
   ("timestamp_to_month_with_tz", "cel_ts_month_with_tz_at_vv", 3),
   ("timestamp_to_day_of_month_1_based_with_tz", "cel_ts_day_of_month_1_with_tz_at_vv", 3),
   ("timestamp_to_day_of_month_with_tz", "cel_ts_day_of_month_with_tz_at_vv", 3),
   ("timestamp_to_day_of_year_with_tz", "cel_ts_day_of_year_with_tz_at_vv", 3),
   ("timestamp_to_day_of_week_with_tz", "cel_ts_day_of_week_with_tz_at_vv", 3),
   ("timestamp_to_hours_with_tz", "cel_ts_hours_with_tz_at_vv", 3),
   ("timestamp_to_minutes_with_tz", "cel_ts_minutes_with_tz_at_vv", 3),
   ("timestamp_to_seconds_tz", "cel_ts_seconds_with_tz_at_vv", 3),
   ("timestamp_to_milliseconds_with_tz", "cel_ts_milliseconds_with_tz_at_vv", 3),
   ("contains_string", "cel_string_contains_at_vv", 3),
   ("starts_with_string", "cel_string_starts_with_at_vv", 3),
   ("ends_with_string", "cel_string_ends_with_at_vv", 3), ("matches", "cel_matches_at_vv", 3),
   ("matches_string", "cel_matches_at_vv", 3), ("type", "cel_type_of_at_v", 2),
   ("bool_to_bool", "cel_copy_slot", 2), ("int64_to_int64", "cel_copy_slot", 2),
   ("uint64_to_uint64", "cel_copy_slot", 2), ("double_to_double", "cel_copy_slot", 2),
   ("string_to_string", "cel_copy_slot", 2), ("bytes_to_bytes", "cel_copy_slot", 2),
   ("uint64_to_int64", "cel_uint_to_int_at_v", 2), ("double_to_int64", "cel_double_to_int_at_v", 2),
   ("int64_to_uint64", "cel_int_to_uint_at_v", 2),
   ("double_to_uint64", "cel_double_to_uint_at_v", 2),
   ("int64_to_double", "cel_int_to_double_at_v", 2),
   ("uint64_to_double", "cel_uint_to_double_at_v", 2),
   ("string_to_int64", "cel_string_to_int_at_v", 2),
   ("string_to_uint64", "cel_string_to_uint_at_v", 2),
   ("string_to_double", "cel_string_to_double_at_v", 2),
   ("string_to_bool", "cel_string_to_bool_at_v", 2),
   ("int64_to_string", "cel_int_to_string_at_v", 2),
   ("uint64_to_string", "cel_uint_to_string_at_v", 2),
   ("bool_to_string", "cel_bool_to_string_at_v", 2),
   ("double_to_string", "cel_double_to_string_at_v", 2),
   ("string_to_bytes", "cel_string_to_bytes_at_v", 2),
   ("bytes_to_string", "cel_bytes_to_string_at_v", 2),
   ("string_char_at_int", "cel_string_char_at_at_vv", 3),
   ("string_index_of_string", "cel_string_index_of_at_vv", 3),
   ("string_index_of_string_int", "cel_string_index_of_at_vvv", 4),
   ("string_last_index_of_string", "cel_string_last_index_of_at_vv", 3),
   ("string_last_index_of_string_int", "cel_string_last_index_of_at_vvv", 4),
   ("string_lower_ascii", "cel_string_lower_ascii_at_v", 2),
   ("string_upper_ascii", "cel_string_upper_ascii_at_v", 2),
   ("string_replace_string_string", "cel_string_replace_at_vvv", 4),
   ("string_replace_string_string_int", "cel_string_replace_n_at_vvvv", 5),
   ("string_split_string", "cel_string_split_at_vv", 3),
   ("string_split_string_int", "cel_string_split_n_at_vvv", 4),
   ("string_substring_int", "cel_string_substring_at_vv", 3),
   ("string_substring_int_int", "cel_string_substring_range_at_vvv", 4),
   ("string_trim", "cel_string_trim_at_v", 2), ("list_join", "cel_string_join_at_v", 2),
   ("list_join_string", "cel_string_join_sep_at_vv", 3),
   ("strings_quote", "cel_string_quote_at_v", 2), ("string_format", "cel_string_format_at_vv", 3),
   ("string_reverse", "cel_string_reverse_at_v", 2), ("math_ceil_double", "cel_math_ceil_at_v", 2),
   ("math_floor_double", "cel_math_floor_at_v", 2), ("math_round_double", "cel_math_round_at_v", 2),
   ("math_trunc_double", "cel_math_trunc_at_v", 2),
   ("math_isInf_double", "cel_math_is_inf_at_v", 2),
   ("math_isNaN_double", "cel_math_is_nan_at_v", 2),
   ("math_isFinite_double", "cel_math_is_finite_at_v", 2), ("math_abs_int", "cel_math_abs_at_v", 2),
   ("math_abs_uint", "cel_math_abs_at_v", 2), ("math_abs_double", "cel_math_abs_at_v", 2),
   ("math_sign_int", "cel_math_sign_at_v", 2), ("math_sign_uint", "cel_math_sign_at_v", 2),
   ("math_sign_double", "cel_math_sign_at_v", 2), ("math_sqrt_int", "cel_math_sqrt_at_v", 2),
   ("math_sqrt_uint", "cel_math_sqrt_at_v", 2), ("math_sqrt_double", "cel_math_sqrt_at_v", 2),
   ("math_bitAnd_int_int", "cel_math_bit_and_at_vv", 3),
   ("math_bitAnd_uint_uint", "cel_math_bit_and_at_vv", 3),
   ("math_bitOr_int_int", "cel_math_bit_or_at_vv", 3),
   ("math_bitOr_uint_uint", "cel_math_bit_or_at_vv", 3),
   ("math_bitXor_int_int", "cel_math_bit_xor_at_vv", 3),
   ("math_bitXor_uint_uint", "cel_math_bit_xor_at_vv", 3),
   ("math_bitNot_int_int", "cel_math_bit_not_at_v", 2),
   ("math_bitNot_uint_uint", "cel_math_bit_not_at_v", 2),
   ("math_bitShiftLeft_int_int", "cel_math_bit_shift_left_at_vv", 3),
   ("math_bitShiftLeft_uint_int", "cel_math_bit_shift_left_at_vv", 3),
   ("math_bitShiftRight_int_int", "cel_math_bit_shift_right_at_vv", 3),
   ("math_bitShiftRight_uint_int", "cel_math_bit_shift_right_at_vv", 3),
   ("math_@min_int", "cel_copy_slot", 2), ("math_@min_uint", "cel_copy_slot", 2),
   ("math_@min_double", "cel_copy_slot", 2), ("math_@min_int_int", "cel_math_min_at_vv", 3),
   ("math_@min_int_uint", "cel_math_min_at_vv", 3),
   ("math_@min_int_double", "cel_math_min_at_vv", 3),
   ("math_@min_uint_int", "cel_math_min_at_vv", 3),
   ("math_@min_uint_uint", "cel_math_min_at_vv", 3),
   ("math_@min_uint_double", "cel_math_min_at_vv", 3),
   ("math_@min_double_int", "cel_math_min_at_vv", 3),
   ("math_@min_double_uint", "cel_math_min_at_vv", 3),
   ("math_@min_double_double", "cel_math_min_at_vv", 3),
   ("math_@min_list_int", "cel_math_min_list_at_v", 2),
   ("math_@min_list_uint", "cel_math_min_list_at_v", 2),
   ("math_@min_list_double", "cel_math_min_list_at_v", 2), ("math_@max_int", "cel_copy_slot", 2),
   ("math_@max_uint", "cel_copy_slot", 2), ("math_@max_double", "cel_copy_slot", 2),
   ("math_@max_int_int", "cel_math_max_at_vv", 3), ("math_@max_int_uint", "cel_math_max_at_vv", 3),
   ("math_@max_int_double", "cel_math_max_at_vv", 3),
   ("math_@max_uint_int", "cel_math_max_at_vv", 3),
   ("math_@max_uint_uint", "cel_math_max_at_vv", 3),
   ("math_@max_uint_double", "cel_math_max_at_vv", 3),
   ("math_@max_double_int", "cel_math_max_at_vv", 3),
   ("math_@max_double_uint", "cel_math_max_at_vv", 3),
   ("math_@max_double_double", "cel_math_max_at_vv", 3),
   ("math_@max_list_int", "cel_math_max_list_at_v", 2),
   ("math_@max_list_uint", "cel_math_max_list_at_v", 2),
   ("math_@max_list_double", "cel_math_max_list_at_v", 2),
   ("base64_encode_bytes", "cel_base64_encode_at_v", 2),
   ("base64_decode_string", "cel_base64_decode_at_v", 2),
   ("optional_of", "cel_optional_of_at_v", 2),
   ("optional_ofNonZeroValue", "cel_optional_of_non_zero_at_v", 2),
   ("optional_none", "cel_optional_none_at", 1),
   ("optional_hasValue", "cel_optional_has_value_at_v", 2),
   ("optional_value", "cel_optional_value_at_v", 2),
   ("optional_or_optional", "cel_optional_or_at_vv", 3),
   ("optional_orValue_value", "cel_optional_or_value_at_vv", 3),
   ("select_optional_field", "cel_select_optional_field_at_vv", 3),
   ("map_optindex_optional_value", "cel_select_optional_field_at_vv", 3),
   ("optional_map_optindex_optional_value", "cel_select_optional_field_at_vv", 3),
   ("list_optindex_optional_int", "cel_select_optional_field_at_vv", 3),
   ("optional_list_optindex_optional_int", "cel_select_optional_field_at_vv", 3),
   ("optional_list_index_int", "cel_select_optional_field_at_vv", 3),
   ("optional_map_index_value", "cel_select_optional_field_at_vv", 3),
   ("net_ip_string", "cel_ip_parse_at_v", 2), ("net_cidr_string", "cel_cidr_parse_at_v", 2),
   ("net_isIP_string", "cel_isip_at_v", 2), ("net_isIP_string_int", "cel_isip_at_v", 2),
   ("net_ip_isCanonical_string", "cel_ip_is_canonical_at_v", 2),
   ("net_string_ip", "cel_ip_to_string_at_v", 2), ("net_string_cidr", "cel_cidr_to_string_at_v", 2),
   ("net_ip_family", "cel_ip_family_at_v", 2), ("net_ip_isLoopback", "cel_ip_is_loopback_at_v", 2),
   ("net_ip_isUnspecified", "cel_ip_is_unspecified_at_v", 2),
   ("net_ip_isGlobalUnicast", "cel_ip_is_global_unicast_at_v", 2),
   ("net_ip_isLinkLocalUnicast", "cel_ip_is_link_local_unicast_at_v", 2),
   ("net_ip_isLinkLocalMulticast", "cel_ip_is_link_local_multicast_at_v", 2),
   ("net_cidr_containsIP_ip", "cel_cidr_contains_ip_at_vv", 3),
   ("net_cidr_containsIP_string", "cel_cidr_contains_ip_at_vv", 3),
   ("net_cidr_containsCIDR_cidr", "cel_cidr_contains_cidr_at_vv", 3),
   ("net_cidr_containsCIDR_string", "cel_cidr_contains_cidr_at_vv", 3),
   ("net_cidr_ip", "cel_cidr_ip_at_v", 2), ("net_cidr_masked", "cel_cidr_masked_at_v", 2),
   ("net_cidr_prefixLength", "cel_cidr_prefix_length_at_v", 2)]

/-- `SeedBuiltins`. No id stands in the table twice, and the catalogue has every helper. -/
def seedBuiltins : List OverloadDef :=
  builtinSeeds.map fun s => ⟨s.1, s.2.1, .cel, s.2.2⟩

/-- How the table is not built: a failed check aborts, a collision is the embedder's error. -/
inductive OverloadTableError
  | abort
  | alreadyExists (message : String)

/-- **`AppendCustoms`**, past the first `builtinCount` entries. -/
def appendCustoms (builtinCount : ℕ) :
    List OverloadDef → List OverloadDef → Except OverloadTableError (List OverloadDef)
  | impls, [] => .ok impls
  | impls, c :: rest =>
    if c.wasmImportModuleType = .cel ∨ c.numArgs < 1 then .error .abort
    else
      match impls.findIdx? fun impl => impl.overloadId == c.overloadId with
      | some i =>
        .error (.alreadyExists ("custom overload '" ++ c.overloadId ++ "' collides with " ++
          if i < builtinCount then "a standard built-in (shadowing is forbidden)"
          else "an earlier custom registration"))
      | none => appendCustoms builtinCount (impls ++ [c]) rest

/-- `OverloadTable`. -/
structure OverloadTable where
  impls : List OverloadDef

/-- **`OverloadTable::Build`**. -/
def OverloadTable.build (customs : List OverloadDef) : Except OverloadTableError OverloadTable :=
  OverloadTable.mk <$> appendCustoms seedBuiltins.length seedBuiltins customs

/-- **`OverloadTable::Lookup`**. -/
def OverloadTable.lookup (table : OverloadTable) (overloadId : String) : Option OverloadDef :=
  table.impls.find? fun impl => impl.overloadId == overloadId

/-- The entry of a declaration. -/
def CelfnDecl.overloadDef (d : CelfnDecl) : OverloadDef :=
  ⟨d.overloadId, d.overloadId, .celFn, d.numArgs⟩

/-- The declarations of all libraries, in order. -/
def declsOf (libraries : List FunctionLibrary) : List CelfnDecl :=
  libraries.flatMap FunctionLibrary.decls

/-- **`BuildOverloadTable`**. -/
def buildOverloadTable (libraries : List FunctionLibrary) :
    Except OverloadTableError OverloadTable :=
  OverloadTable.build ((declsOf libraries).map CelfnDecl.overloadDef)

/-! ## What is accepted -/

/-- What `AppendCustoms` accepts: new ids, each once, and at least one parameter. -/
theorem appendCustoms_eq_ok {builtinCount : ℕ} : ∀ {customs impls result : List OverloadDef},
    appendCustoms builtinCount impls customs = .ok result →
      result = impls ++ customs ∧ (customs.map OverloadDef.overloadId).Nodup ∧
      ∀ c ∈ customs, c.overloadId ∉ impls.map OverloadDef.overloadId ∧ c.numArgs ≠ 0
  | [], impls, result, h => ⟨by rw [List.append_nil]; exact (Except.ok.inj h).symm, .nil, nofun⟩
  | c :: rest, impls, result, h => by
    rw [appendCustoms] at h
    split_ifs at h with hcheck
    cases hfind : impls.findIdx? fun impl => impl.overloadId == c.overloadId with
    | some i =>
      rw [hfind] at h
      exact nomatch h
    | none =>
      rw [hfind] at h
      obtain ⟨hresult, hnodup, hrest⟩ := appendCustoms_eq_ok h
      have hnew : c.overloadId ∉ impls.map OverloadDef.overloadId := fun hmem => by
        obtain ⟨impl, himpl, heq⟩ := List.mem_map.mp hmem
        exact Bool.false_ne_true
          ((List.findIdx?_eq_none_iff.mp hfind impl himpl).symm.trans (beq_iff_eq.mpr heq))
      refine ⟨hresult.trans (List.append_assoc _ _ _), ?_, ?_⟩
      · refine List.nodup_cons.mpr ⟨fun hmem => ?_, hnodup⟩
        obtain ⟨c', hc', heq⟩ := List.mem_map.mp hmem
        exact (hrest c' hc').1 (heq ▸ List.mem_map_of_mem (by simp))
      · refine List.forall_mem_cons.mpr ⟨⟨hnew, fun hzero => hcheck (.inr ?_)⟩, fun c' hc' => ?_⟩
        · rw [hzero]
          decide
        · refine ⟨fun hmem => (hrest c' hc').1 ?_, (hrest c' hc').2⟩
          rw [List.map_append]
          exact List.mem_append_left _ hmem

/-- **The table of accepted declarations** is the seeds and then the declarations, with new ids, each
once. -/
theorem buildOverloadTable_eq_ok {libraries : List FunctionLibrary} {table : OverloadTable}
    (h : buildOverloadTable libraries = .ok table) :
    table.impls = seedBuiltins ++ (declsOf libraries).map CelfnDecl.overloadDef ∧
      ((declsOf libraries).map CelfnDecl.overloadId).Nodup ∧
      ∀ d ∈ declsOf libraries,
        d.overloadId ∉ seedBuiltins.map OverloadDef.overloadId ∧ d.numArgs ≠ 0 := by
  unfold buildOverloadTable OverloadTable.build at h
  cases happend : appendCustoms seedBuiltins.length seedBuiltins
      ((declsOf libraries).map CelfnDecl.overloadDef) with
  | error e =>
    rw [happend] at h
    exact nomatch h
  | ok impls =>
    rw [happend] at h
    obtain ⟨himpls, hnodup, hnew⟩ := appendCustoms_eq_ok happend
    rw [List.map_map] at hnodup
    exact ⟨(congrArg OverloadTable.impls (Except.ok.inj h).symm).trans himpls, hnodup,
      fun d hd => hnew d.overloadDef (List.mem_map_of_mem hd)⟩

end CelWasm
