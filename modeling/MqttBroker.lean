import MqttBroker.PublishHashmapRefinement
import MqttBroker.MyhashmapRefinement
import MqttBroker.MyhashmapContents
import MqttBroker.ClientHistory
import MqttBroker.Server
import MqttBroker.UserCredsHistory
import MqttBroker.UserCredsChange
import MqttBroker.Worker.Isolation
import MqttBroker.Worker.Pairing
import MqttBroker.Worker.Endings
import MqttBroker.Worker.Handshake
import MqttBroker.Worker.Reception
import MqttBroker.Worker.Ordering
import MqttBroker.Worker.Forwarding
import MqttBroker.Worker.Framing
import MqttBroker.Worker.Rejection
import MqttBroker.Worker.Suback
import MqttBroker.Worker.Draining
import MqttBroker.Worker.Refusal
import MqttBroker.Protocol.Acknowledgements
import MqttBroker.Worker.Rules
import MqttBroker.Worker.Reading
import MqttBroker.Worker.Balance
import MqttBroker.Worker.Answers
import MqttBroker.MyhashmapErasure
import MqttBroker.MyhashmapIterator
import MqttBroker.PublishHashmapProbing
import MqttBroker.PublishHashmapReachability
import MqttBroker.Worker.Queueing
import MqttBroker.Worker.Counting
import MqttBroker.SubscriptionTermination
import MqttBroker.SubscriptionRemoval
import MqttBroker.SubscriptionExhaustion
import MqttBroker.Worker.Genuine
import MqttBroker.Worker.Wills
import MqttBroker.MyvectorStorage
import MqttBroker.Worker.Ledger
import MqttBroker.Worker.Footprint
import MqttBroker.Worker.Lifetime
import MqttBroker.Broker
import MqttBroker.Worker.Retention
import MqttBroker.Attendance
import MqttBroker.Worker.Admission
import MqttBroker.Listening
import MqttBroker.Worker.Bystanders
import MqttBroker.Setup
import MqttBroker.Wificonfig
import MqttBroker.Worker.Wakeups
import MqttBroker.Watching
