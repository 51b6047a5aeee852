/-!
The signs of people and parts of the body, which come in several tones of skin. Names and signs are
as in the list of the library that the program prints with.
-/

namespace DollarMath.Console.Emoji

def people : List (String × String) :=
  [("🧑", "adult"), ("👶", "baby"), ("👼", "baby_angel"), ("👇", "backhand_index_pointing_down"),
    ("👈", "backhand_index_pointing_left"), ("👉", "backhand_index_pointing_right"),
    ("👆", "backhand_index_pointing_up"), ("🧔", "bearded_person"), ("👱‍♂️", "blond-haired_man"),
    ("👱", "blond-haired_person"), ("👱‍♀️", "blond-haired_woman"), ("👦", "boy"),
    ("🤱", "breast-feeding"), ("👰", "bride_with_veil"), ("🤙", "call_me_hand"), ("🧒", "child"),
    ("👏", "clapping_hands"), ("👷", "construction_worker"), ("🤞", "crossed_fingers"),
    ("🕵", "detective"), ("👂", "ear"), ("🧝", "elf"), ("🧚", "fairy"), ("💪", "flexed_biceps"),
    ("🙏", "folded_hands"), ("👧", "girl"), ("💂", "guard"), ("🖐", "hand_with_fingers_splayed"),
    ("🏇", "horse_racing"), ("☝", "index_pointing_up"), ("🤛", "left-facing_fist"),
    ("🤟", "love-you_gesture"), ("🧙", "mage"), ("👨", "man"), ("👨‍🎨", "man_artist"),
    ("👨‍🚀", "man_astronaut"), ("🚴‍♂️", "man_biking"), ("⛹️‍♂️", "man_bouncing_ball"),
    ("🙇‍♂️", "man_bowing"), ("🤸‍♂️", "man_cartwheeling"), ("🧗‍♂️", "man_climbing"),
    ("👷‍♂️", "man_construction_worker"), ("👨‍🍳", "man_cook"), ("🕺", "man_dancing"),
    ("🕵️‍♂️", "man_detective"), ("🧝‍♂️", "man_elf"), ("🤦‍♂️", "man_facepalming"),
    ("👨‍🏭", "man_factory_worker"), ("🧚‍♂️", "man_fairy"), ("👨‍🌾", "man_farmer"),
    ("👨‍🚒", "man_firefighter"), ("🙍‍♂️", "man_frowning"), ("🙅‍♂️", "man_gesturing_no"),
    ("🙆‍♂️", "man_gesturing_ok"), ("💇‍♂️", "man_getting_haircut"), ("💆‍♂️", "man_getting_massage"),
    ("🏌️‍♂️", "man_golfing"), ("💂‍♂️", "man_guard"), ("👨‍⚕️", "man_health_worker"),
    ("🧘‍♂️", "man_in_lotus_position"), ("🧖‍♂️", "man_in_steamy_room"),
    ("🕴", "man_in_suit_levitating"), ("🤵", "man_in_tuxedo"), ("👨‍⚖️", "man_judge"),
    ("🤹‍♂️", "man_juggling"), ("🏋️‍♂️", "man_lifting_weights"), ("🧙‍♂️", "man_mage"),
    ("👨‍🔧", "man_mechanic"), ("🚵‍♂️", "man_mountain_biking"), ("👨‍💼", "man_office_worker"),
    ("👨‍✈️", "man_pilot"), ("🤾‍♂️", "man_playing_handball"), ("🤽‍♂️", "man_playing_water_polo"),
    ("👮‍♂️", "man_police_officer"), ("🙎‍♂️", "man_pouting"), ("🙋‍♂️", "man_raising_hand"),
    ("🚣‍♂️", "man_rowing_boat"), ("🏃‍♂️", "man_running"), ("👨‍🔬", "man_scientist"),
    ("🤷‍♂️", "man_shrugging"), ("👨‍🎤", "man_singer"), ("👨‍🎓", "man_student"),
    ("🏄‍♂️", "man_surfing"), ("🏊‍♂️", "man_swimming"), ("👨‍🏫", "man_teacher"),
    ("👨‍💻", "man_technologist"), ("💁‍♂️", "man_tipping_hand"), ("🧛‍♂️", "man_vampire"),
    ("🚶‍♂️", "man_walking"), ("👳‍♂️", "man_wearing_turban"), ("👲", "man_with_chinese_cap"),
    ("🧜‍♀️", "mermaid"), ("🧜‍♂️", "merman"), ("🧜", "merperson"), ("🖕", "middle_finger"),
    ("🤶", "mrs._claus"), ("💅", "nail_polish"), ("👃", "nose"), ("👌", "ok_hand"), ("👴", "old_man"),
    ("👵", "old_woman"), ("🧓", "older_adult"), ("👊", "oncoming_fist"), ("👐", "open_hands"),
    ("🤲", "palms_up_together"), ("🚴", "person_biking"), ("⛹", "person_bouncing_ball"),
    ("🙇", "person_bowing"), ("🤸", "person_cartwheeling"), ("🧗", "person_climbing"),
    ("🤦", "person_facepalming"), ("🙍", "person_frowning"), ("🙅", "person_gesturing_no"),
    ("🙆", "person_gesturing_ok"), ("💇", "person_getting_haircut"), ("💆", "person_getting_massage"),
    ("🏌", "person_golfing"), ("🛌", "person_in_bed"), ("🧘", "person_in_lotus_position"),
    ("🧖", "person_in_steamy_room"), ("🤹", "person_juggling"), ("🏋", "person_lifting_weights"),
    ("🚵", "person_mountain_biking"), ("🤾", "person_playing_handball"),
    ("🤽", "person_playing_water_polo"), ("🙎", "person_pouting"), ("🙋", "person_raising_hand"),
    ("🚣", "person_rowing_boat"), ("🏃", "person_running"), ("🤷", "person_shrugging"),
    ("🏄", "person_surfing"), ("🏊", "person_swimming"), ("🛀", "person_taking_bath"),
    ("💁", "person_tipping_hand"), ("🚶", "person_walking"), ("👳", "person_wearing_turban"),
    ("👮", "police_officer"), ("🤰", "pregnant_woman"), ("🤴", "prince"), ("👸", "princess"),
    ("🤚", "raised_back_of_hand"), ("✊", "raised_fist"), ("✋", "raised_hand"),
    ("🙌", "raising_hands"), ("🤜", "right-facing_fist"), ("🎅", "santa_claus"), ("🤳", "selfie"),
    ("🤘", "sign_of_the_horns"), ("🏂", "snowboarder"), ("👎", "thumbs_down"), ("👍", "thumbs_up"),
    ("🧛", "vampire"), ("✌", "victory_hand"), ("🖖", "vulcan_salute"), ("👋", "waving_hand"),
    ("👩", "woman"), ("👩‍🎨", "woman_artist"), ("👩‍🚀", "woman_astronaut"), ("🚴‍♀️", "woman_biking"),
    ("⛹️‍♀️", "woman_bouncing_ball"), ("🙇‍♀️", "woman_bowing"), ("🤸‍♀️", "woman_cartwheeling"),
    ("🧗‍♀️", "woman_climbing"), ("👷‍♀️", "woman_construction_worker"), ("👩‍🍳", "woman_cook"),
    ("💃", "woman_dancing"), ("🕵️‍♀️", "woman_detective"), ("🧝‍♀️", "woman_elf"),
    ("🤦‍♀️", "woman_facepalming"), ("👩‍🏭", "woman_factory_worker"), ("🧚‍♀️", "woman_fairy"),
    ("👩‍🌾", "woman_farmer"), ("👩‍🚒", "woman_firefighter"), ("🙍‍♀️", "woman_frowning"),
    ("🙅‍♀️", "woman_gesturing_no"), ("🙆‍♀️", "woman_gesturing_ok"),
    ("💇‍♀️", "woman_getting_haircut"), ("💆‍♀️", "woman_getting_massage"),
    ("🏌️‍♀️", "woman_golfing"), ("💂‍♀️", "woman_guard"), ("👩‍⚕️", "woman_health_worker"),
    ("🧘‍♀️", "woman_in_lotus_position"), ("🧖‍♀️", "woman_in_steamy_room"), ("👩‍⚖️", "woman_judge"),
    ("🤹‍♀️", "woman_juggling"), ("🏋️‍♀️", "woman_lifting_weights"), ("🧙‍♀️", "woman_mage"),
    ("👩‍🔧", "woman_mechanic"), ("🚵‍♀️", "woman_mountain_biking"), ("👩‍💼", "woman_office_worker"),
    ("👩‍✈️", "woman_pilot"), ("🤾‍♀️", "woman_playing_handball"),
    ("🤽‍♀️", "woman_playing_water_polo"), ("👮‍♀️", "woman_police_officer"),
    ("🙎‍♀️", "woman_pouting"), ("🙋‍♀️", "woman_raising_hand"), ("🚣‍♀️", "woman_rowing_boat"),
    ("🏃‍♀️", "woman_running"), ("👩‍🔬", "woman_scientist"), ("🤷‍♀️", "woman_shrugging"),
    ("👩‍🎤", "woman_singer"), ("👩‍🎓", "woman_student"), ("🏄‍♀️", "woman_surfing"),
    ("🏊‍♀️", "woman_swimming"), ("👩‍🏫", "woman_teacher"), ("👩‍💻", "woman_technologist"),
    ("💁‍♀️", "woman_tipping_hand"), ("🧛‍♀️", "woman_vampire"), ("🚶‍♀️", "woman_walking"),
    ("👳‍♀️", "woman_wearing_turban"), ("🧕", "woman_with_headscarf"), ("✍", "writing_hand")]

end DollarMath.Console.Emoji
